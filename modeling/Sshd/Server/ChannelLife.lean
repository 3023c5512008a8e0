import Sshd.Server.OutputDelivery
import Sshd.Server.Traffic
import Sshd.Server.Window

namespace Sshd.Server

open Lib.Octets Lib.Trace Wire Crypto

variable {P : Primitives} {env : Env}

/-! The life of the channel on the wire, as a law about the types of the
messages that the server sends. -/

def messageTypes (obs : List Obs) : List UInt8 := (sentPayloads obs).filterMap List.head?

/-- The messages that need a confirmed channel. A request from the server is
an exit status. -/
def afterConfirm : List UInt8 :=
  [msgChannelSuccess, msgChannelFailure, msgChannelData, msgChannelWindowAdjust, msgChannelRequest,
    msgChannelEof, msgChannelClose]

/-- One confirmation, in front of everything else; one end of file, after all
data; one close, after all that is about a channel. -/
def MayFollow (pre : List UInt8) (t : UInt8) : Prop :=
  (t = msgChannelOpenConfirm → msgChannelOpenConfirm ∉ pre) ∧
    (t ∈ afterConfirm → msgChannelOpenConfirm ∈ pre) ∧
    (t = msgChannelData ∨ t = msgChannelEof → msgChannelEof ∉ pre) ∧
    (msgChannelOpen ≤ t → msgChannelClose ∉ pre)

def ChannelLaw (types : List UInt8) : Prop := EachAfter MayFollow types

/-- The bytes `d` that go to the backend use up half of the window. -/
def AdjustDue (env : Env) (obs : List Obs) (s : Session) (d : Bytes) : Prop :=
  0 < takes env obs s d ∧ usedWindow s (takes env obs s d) < localWindowMax / 2

/-- What makes the server answer on the channel finds it open. -/
def FindsChannel (env : Env) (pre : List Obs) : Obs → Prop
  | .dispatch s payload => s.phase = .run → s.chanOpen = false →
      (∀ want ∈ wantReply payload, want = 0) ∧
        ∀ d ∈ dataPayload payload, ¬AdjustDue env (pre ++ [.dispatch s payload]) s d
  | _ => True

def AllFindChannel (env : Env) (obs : List Obs) : Prop := EachAfter (FindsChannel env) obs

instance (pre : List UInt8) (t : UInt8) : Decidable (MayFollow pre t) := by
  unfold MayFollow
  infer_instance

instance (types : List UInt8) : Decidable (ChannelLaw types) :=
  inferInstanceAs (Decidable (EachAfter MayFollow types))

/-- `w'` comes from `w` by calls that stand aside, among them the sending of
messages of the types `ts`. -/
structure Speaks (ts : List UInt8) (w w' : World) : Prop extends Aside w w' where
  types : messageTypes w'.obs = messageTypes w.obs ++ ts

section
variable {w w' : World} {ts : List UInt8}

theorem messageTypes_append (obs os : List Obs) :
    messageTypes (obs ++ os) = messageTypes obs ++ messageTypes os := by
  rw [messageTypes, sentPayloads_append, List.filterMap_append]
  rfl

theorem Speaks.trans {w₁ w₂ w₃ : World} {ts ts' : List UInt8} (h : Speaks ts w₁ w₂)
    (h' : Speaks ts' w₂ w₃) : Speaks (ts ++ ts') w₁ w₃ :=
  ⟨h.toAside.trans h'.toAside, by rw [h'.types, h.types, List.append_assoc]⟩

theorem Aside.mute (h : Aside w w') (hs : sentPayloads w'.obs = sentPayloads w.obs) :
    Speaks [] w w' :=
  ⟨h, by rw [messageTypes, hs, List.append_nil]; rfl⟩

theorem messageTypes_send (h : CanSend w.s) (payload : Bytes) :
    messageTypes (sendPacket P w payload).obs = messageTypes w.obs ++ payload.head?.toList := by
  rw [messageTypes, sentPayloads_send h, List.filterMap_append]
  cases payload <;> rfl

theorem Aside.canSend (h : Aside w w') (hw : CanSend w.s) : CanSend w'.s :=
  ⟨fun hc ↦ hw.1 (h.phase.mp hc), by rw [h.tcp]; exact hw.2⟩

theorem connectBackend_speaks (w : World) (b : Backend) (ref : ℤ) :
    Speaks [] w (connectBackend w b ref) := by
  refine (connectBackend_aside w b ref).mute ?_
  change sentPayloads (w.obs ++ [_]) = _
  rw [sentPayloads_append]
  exact List.append_nil _

theorem itsSend_speaks (w : World) (link : Link) (handle : ℤ) (data : Bytes) :
    Speaks [] w (itsSend w link handle data).2 := by
  refine (itsSend_aside w link handle data).mute ?_
  change sentPayloads (w.obs ++ [_]) = _
  rw [sentPayloads_append]
  exact List.append_nil _

theorem dropBackend_speaks (w : World) : Speaks [] w (dropBackend w) :=
  (dropBackend_aside w).mute (dropBackend_sent w)

theorem adoptHash_speaks (w : World) (hash : Bytes) : Speaks [] w (adoptHash w hash) := by
  refine (adoptHash_aside w hash).mute ?_
  rw [adoptHash_obs, sentPayloads_append]
  exact List.append_nil _

/-- Steady calls send plain messages, and only from a session that is not closed. -/
theorem Steady.speaks (h : Steady P w w') : ∃ ts, Speaks ts w w' ∧
    (∀ t ∈ ts, t ∉ channelTypes) ∧ (ts ≠ [] → w.s.phase ≠ .closed) := by
  obtain ⟨os, hobs, hplain⟩ := h.plain
  have hsent : ∀ t ∈ messageTypes os, t ∉ channelTypes ∧ w.s.phase ≠ .closed := by
    intro t ht
    obtain ⟨payload, hp, hhead⟩ := List.mem_filterMap.mp ht
    obtain ⟨o, ho, hf⟩ := List.mem_filterMap.mp hp
    have hpl := hplain o ho
    cases o with
    | sealed f =>
      cases hf
      exact ⟨hpl.1 t hhead, hpl.2⟩
    | _ => cases hf
  refine ⟨messageTypes os, ⟨h.aside P, by rw [hobs, messageTypes_append]⟩,
    fun t ht ↦ (hsent t ht).1, fun hne ↦ ?_⟩
  obtain ⟨t, ht⟩ := List.exists_mem_of_ne_nil _ hne
  exact (hsent t ht).2

/-- The reply to a request that asks for one. -/
def replyTypes (want : UInt8) (ok : Bool) : List UInt8 :=
  if want ≠ 0 then [if ok then msgChannelSuccess else msgChannelFailure] else []

theorem replyIf_speaks (hw : CanSend w.s) (want : UInt8) (ok : Bool) :
    Speaks (replyTypes want ok) w (replyIf P w want ok) := by
  refine ⟨replyIf_aside P w want ok, ?_⟩
  unfold replyIf replyTypes
  split
  · exact messageTypes_send hw _
  · rw [List.append_nil]

theorem replenish_speaks (hw : CanSend w.s) (written : ℕ) :
    Speaks (if 0 < written ∧ usedWindow w.s written < localWindowMax / 2 then [msgChannelWindowAdjust]
      else []) w (replenish P w written) := by
  refine ⟨replenish_aside P w written, ?_⟩
  split
  · rename_i hdue
    rw [replenish_adjust P hdue]
    refine messageTypes_send ?_ _
    exact hw
  · rename_i hdue
    rw [replenish_none P hdue, List.append_nil]
    rfl

/-! The invariant of the runs that keep to the law. -/

structure LifeInv (env : Env) (w : World) : Prop where
  law : ChannelLaw (messageTypes w.obs)
  found : AllFindChannel env w.obs
  confirmed : w.s.phase ≠ .closed →
    (msgChannelOpenConfirm ∈ messageTypes w.obs ↔ w.s.chanOpen = true)
  unended : w.s.phase ≠ .closed →
    msgChannelEof ∉ messageTypes w.obs ∧ msgChannelClose ∉ messageTypes w.obs

/-- A message that neither begins nor ends a channel, and needs none or is on
an open one. -/
def Ordinary (chanOpen : Bool) (t : UInt8) : Prop :=
  t ≠ msgChannelOpenConfirm ∧ t ≠ msgChannelEof ∧ t ≠ msgChannelClose ∧
    (t ∈ afterConfirm → chanOpen = true)

theorem ordinary_plain {t : UInt8} (h : t ∉ channelTypes) (chanOpen : Bool) :
    Ordinary chanOpen t := by
  refine ⟨?_, ?_, ?_, fun ha ↦ absurd ?_ h⟩
  · rintro rfl
    exact h (by decide)
  · rintro rfl
    exact h (by decide)
  · rintro rfl
    exact h (by decide)
  · revert ha
    simp only [afterConfirm, channelTypes, List.mem_cons, List.not_mem_nil, or_false]
    tauto

theorem ChannelLaw.append {pre : List UInt8} {chanOpen : Bool} (h : ChannelLaw pre)
    (hc : chanOpen = true → msgChannelOpenConfirm ∈ pre)
    (hend : msgChannelEof ∉ pre ∧ msgChannelClose ∉ pre) (hts : ∀ t ∈ ts, Ordinary chanOpen t) :
    ChannelLaw (pre ++ ts) := by
  refine eachAfter_append.mpr ⟨h, ?_⟩
  rintro mid t post rfl
  have ht := hts t (by simp)
  have hmid : ∀ t' ∈ mid, Ordinary chanOpen t' := fun t' ht' ↦
    hts t' (List.mem_append_left _ ht')
  refine ⟨fun he ↦ absurd he ht.1, fun ha ↦ ?_, fun _ hm ↦ ?_, fun _ hm ↦ ?_⟩
  · exact List.mem_append_left mid (hc (ht.2.2.2 ha))
  · exact (List.mem_append.mp hm).elim hend.1 fun hm ↦ (hmid _ hm).2.1 rfl
  · exact (List.mem_append.mp hm).elim hend.2 fun hm ↦ (hmid _ hm).2.2.1 rfl

/-- Calls other than the dispatch of a packet. -/
def Obs.Undispatched : Obs → Prop
  | .dispatch _ _ => False
  | _ => True

theorem AllFindChannel.append {obs os : List Obs} (h : AllFindChannel env obs)
    (hos : ∀ o ∈ os, o.Undispatched) : AllFindChannel env (obs ++ os) := by
  refine eachAfter_append.mpr ⟨h, EachAfter.of_forall fun o ho pre ↦ ?_⟩
  have hu := hos o ho
  cases o with
  | dispatch => exact hu.elim
  | _ => trivial

theorem Obs.Aside.undispatched {o : Obs} (h : o.Aside) : o.Undispatched := by
  cases o <;> first | exact h | trivial

theorem Obs.Calm.undispatched {o : Obs} (h : o.Calm) : o.Undispatched := by
  cases o <;> first | exact h | trivial

theorem LifeInv.grow {os : List Obs} (h : LifeInv env w) (hobs : w'.obs = w.obs ++ os)
    (hos : ∀ o ∈ os, o.Undispatched) (htypes : messageTypes w'.obs = messageTypes w.obs ++ ts)
    (hts : ∀ t ∈ ts, Ordinary w.s.chanOpen t) (hn : ts ≠ [] → w.s.phase ≠ .closed)
    (hp : w.s.phase = .closed → w'.s.phase = .closed)
    (hc : w'.s.phase ≠ .closed → w'.s.chanOpen = w.s.chanOpen) : LifeInv env w' := by
  have hopen : w'.s.phase ≠ .closed → w.s.phase ≠ .closed := fun hn hcl ↦ hn (hp hcl)
  refine ⟨?_, ?_, fun hn' ↦ ?_, fun hn' ↦ ?_⟩
  · rw [htypes]
    by_cases hcl : w.s.phase = .closed
    · have hnil : ts = [] := by
        by_contra hne
        exact hn hne hcl
      rw [hnil, List.append_nil]
      exact h.law
    · exact h.law.append (h.confirmed hcl).mpr (h.unended hcl) hts
  · rw [hobs]
    exact h.found.append hos
  · rw [htypes, hc hn', ← h.confirmed (hopen hn'), List.mem_append]
    exact or_iff_left fun hm ↦ (hts _ hm).1 rfl
  · obtain ⟨heof, hclose⟩ := h.unended (hopen hn')
    rw [htypes, List.mem_append, List.mem_append]
    exact ⟨not_or.mpr ⟨heof, fun hm ↦ (hts _ hm).2.1 rfl⟩,
      not_or.mpr ⟨hclose, fun hm ↦ (hts _ hm).2.2.1 rfl⟩⟩

theorem LifeInv.speaks (h : LifeInv env w) (hs : Speaks ts w w')
    (hts : ∀ t ∈ ts, Ordinary w.s.chanOpen t) (hn : ts ≠ [] → w.s.phase ≠ .closed) :
    LifeInv env w' := by
  obtain ⟨os, hobs, hos⟩ := hs.obs
  exact h.grow hobs (fun o ho ↦ (hos o ho).undispatched) hs.types hts hn hs.phase.mpr
    fun _ ↦ hs.chanOpen

theorem LifeInv.steady (h : LifeInv env w) (hs : Steady P w w') : LifeInv env w' := by
  obtain ⟨ts, hspeaks, hplain, hn⟩ := hs.speaks
  exact h.speaks hspeaks (fun t ht ↦ ordinary_plain (hplain t ht) _) hn

/-- A change of phase among those of a session that goes on. -/
theorem LifeInv.move (h : LifeInv env w) (hobs : w'.obs = w.obs) (hp : w.s.phase ≠ .closed)
    (hc : w'.s.chanOpen = w.s.chanOpen) : LifeInv env w' :=
  h.grow (hobs.trans (List.append_nil _).symm) (by simp) (by rw [hobs, List.append_nil]) (by simp)
    (by simp) (fun hcl ↦ absurd hcl hp) fun _ ↦ hc

theorem LifeInv.hangUp (h : LifeInv env w) : LifeInv env (hangUp w) := by
  have htypes : messageTypes (Server.hangUp w).obs = messageTypes w.obs ++ [] :=
    messageTypes_append w.obs _
  exact h.grow rfl (by simp [Obs.Undispatched]) htypes (by simp) (by simp) (fun _ ↦ rfl)
    fun hn ↦ absurd rfl hn

theorem LifeInv.bye (h : LifeInv env w) (hw : CanSend w.s) (code : UInt32) (msg : String) :
    LifeInv env (sendDisconnect P w code msg) := by
  set p := disconnect code msg with hdef
  have hhead : p.head?.toList = [msgDisconnect] := rfl
  have hsent : LifeInv env (sendPacket P w p) := by
    refine h.grow (sendPacket_obs P w p) (fun o ho ↦ ?_) (messageTypes_send hw p) ?_
      (fun _ ↦ hw.1) ?_ fun _ ↦ ?_
    · obtain ⟨bytes, rfl⟩ | ⟨f, rfl, hf⟩ | ⟨handle, data, took, rfl⟩ := mem_sendObs P ho <;> trivial
    · rw [hhead]
      intro t ht
      rw [List.mem_singleton.mp ht]
      exact ⟨by decide, by decide, by decide, fun ha ↦ absurd ha (by decide)⟩
    · rw [sendPacket_s]
      exact id
    · rw [sendPacket_s]
  exact hsent.hangUp

theorem LifeInv.confirm (h : LifeInv env w) (hw : CanSend w.s) (hc : w.s.chanOpen = false)
    (peerCh peerWin peerMax : UInt32) :
    LifeInv env (sendChannelOpenConfirm P (openChannel w peerCh peerWin peerMax)) := by
  set w₁ := openChannel w peerCh peerWin peerMax with hw₁
  have hspeaks : Speaks [msgChannelOpenConfirm] w₁ (sendChannelOpenConfirm P w₁) :=
    ⟨sendChannelOpenConfirm_aside P w₁, messageTypes_send (w := w₁) hw _⟩
  obtain ⟨os, hobs, hos⟩ := hspeaks.obs
  have htypes : messageTypes (sendChannelOpenConfirm P w₁).obs =
      messageTypes w.obs ++ [msgChannelOpenConfirm] := hspeaks.types
  have hfresh : msgChannelOpenConfirm ∉ messageTypes w.obs := by
    rw [h.confirmed hw.1, hc]
    decide
  obtain ⟨heof, hclose⟩ := h.unended hw.1
  refine ⟨?_, ?_, fun _ ↦ ?_, fun _ ↦ ?_⟩
  · rw [htypes]
    refine h.law.snoc ⟨fun _ ↦ hfresh, fun ha ↦ ?_, fun _ ↦ heof, fun _ ↦ hclose⟩
    exact absurd ha (by decide)
  · rw [hobs]
    exact h.found.append fun o ho ↦ (hos o ho).undispatched
  · rw [htypes, hspeaks.chanOpen]
    simp [hw₁, openChannel]
  · rw [htypes]
    simp only [List.mem_append, not_or]
    exact ⟨⟨heof, by decide⟩, hclose, by decide⟩

theorem LifeInv.reply (h : LifeInv env w) (hw : CanSend w.s) {want : UInt8} (ok : Bool)
    (hwant : w.s.chanOpen = false → want = 0) : LifeInv env (replyIf P w want ok) := by
  refine h.speaks (replyIf_speaks hw want ok) (fun t ht ↦ ?_) fun _ ↦ hw.1
  unfold replyTypes at ht
  split at ht
  · rename_i hne
    have hc : w.s.chanOpen = true := by
      by_contra hc
      exact hne (hwant (Bool.not_eq_true _ ▸ hc))
    rw [List.mem_singleton.mp ht]
    refine ⟨?_, ?_, ?_, fun _ ↦ hc⟩ <;> cases ok <;> decide
  · cases ht

theorem LifeInv.drain (h : LifeInv env w) (hw : CanSend w.s) :
    LifeInv env (sessionOnBackendData P w) := by
  have hq := sessionOnBackendData_quiet P w
  by_cases hup : w.s.chanOpen = false ∨ w.s.backendHandle < 0
  · rw [sessionOnBackendData, if_pos hup]
    exact h
  rw [not_or, Bool.not_eq_false] at hup
  obtain ⟨chunks, hsent⟩ := sessionOnBackendData_sends (P := P) hw
  have htypes : messageTypes (sessionOnBackendData P w).obs =
      messageTypes w.obs ++ chunks.map fun _ ↦ msgChannelData := by
    rw [messageTypes, hsent, List.filterMap_append, List.filterMap_map]
    congr 1
    exact congrFun (List.filterMap_eq_map (f := fun _ ↦ msgChannelData)) chunks
  obtain ⟨os, hobs, hcalm⟩ := hq.obs
  refine h.grow hobs (fun o ho ↦ (hcalm o ho).undispatched) htypes (fun t ht ↦ ?_) (fun _ ↦ hw.1)
    (fun hcl ↦ hq.phase.trans hcl) fun _ ↦ hq.chanOpen
  obtain ⟨_, _, rfl⟩ := List.mem_map.mp ht
  exact ⟨by decide, by decide, by decide, fun _ ↦ hup.1⟩

theorem LifeInv.closeChannel (h : LifeInv env w) (hw : CanSend w.s) (hc : w.s.chanOpen = true) :
    LifeInv env (shut (sendChannelClose P (dropBackend w))) := by
  have hdrop := dropBackend_speaks w
  have hspeaks : Speaks [msgChannelClose] w (sendChannelClose P (dropBackend w)) :=
    hdrop.trans ⟨sendChannelClose_aside P _, messageTypes_send (hdrop.canSend hw) _⟩
  obtain ⟨os, hobs, hos⟩ := hspeaks.obs
  obtain ⟨heof, hclose⟩ := h.unended hw.1
  refine ⟨?_, ?_, fun hn ↦ absurd rfl hn, fun hn ↦ absurd rfl hn⟩
  · change ChannelLaw (messageTypes (sendChannelClose P (dropBackend w)).obs)
    rw [hspeaks.types]
    refine h.law.snoc ⟨fun he ↦ absurd he (by decide), fun _ ↦ (h.confirmed hw.1).mpr hc,
      fun _ ↦ heof, fun _ ↦ hclose⟩
  · change AllFindChannel env (sendChannelClose P (dropBackend w)).obs
    rw [hobs]
    exact h.found.append fun o ho ↦ (hos o ho).undispatched

theorem LifeInv.close (h : LifeInv env w) : LifeInv env (sessionClose w) := by
  obtain ⟨os, hobs, hos, hclosed, -⟩ := sessionClose_grows w
  have htypes : messageTypes (sessionClose w).obs = messageTypes w.obs ++ [] := by
    rw [messageTypes, sessionClose_sent, List.append_nil]
    rfl
  refine h.grow hobs (fun o ho ↦ ?_) htypes (by simp) (by simp) (fun _ ↦ hclosed)
    fun hn ↦ absurd hclosed hn
  obtain ⟨handle, rfl⟩ | rfl | rfl := hos o ho <;> trivial

theorem LifeInv.farewell (h : LifeInv env w) (hw : CanSend w.s) (hc : w.s.chanOpen = true) :
    LifeInv env (sessionClose (Server.farewell P w)) := by
  obtain ⟨w₁, ha, he⟩ := farewell_aside P w
  obtain ⟨os, hobs, hos⟩ := ha.obs
  obtain ⟨os', hobs', hos', hclosed, -⟩ := sessionClose_grows (Server.farewell P w)
  have htypes : messageTypes (sessionClose (Server.farewell P w)).obs =
      messageTypes w.obs ++ [msgChannelRequest] ++ [msgChannelEof] ++ [msgChannelClose] := by
    have hend := sendEnd_spec (P := P) ((dropBackend_speaks w).canSend hw)
    rw [messageTypes, sessionClose_sent, Server.farewell, modify_obs, hend, dropBackend_sent,
      List.filterMap_append, List.append_assoc, List.append_assoc]
    rfl
  obtain ⟨heof, hclose⟩ := h.unended hw.1
  have hconfirm : msgChannelOpenConfirm ∈ messageTypes w.obs := (h.confirmed hw.1).mpr hc
  refine ⟨?_, ?_, fun hn ↦ absurd hclosed hn, fun hn ↦ absurd hclosed hn⟩
  · rw [htypes]
    refine ((h.law.snoc ⟨?_, ?_, ?_, ?_⟩).snoc ⟨?_, ?_, ?_, ?_⟩).snoc ⟨?_, ?_, ?_, ?_⟩
    all_goals simp only [List.mem_append, List.mem_singleton, hconfirm, heof, hclose]
    all_goals decide
  · rw [hobs']
    refine AllFindChannel.append ?_ fun o ho ↦ ?_
    · rw [he, modify_obs, hobs]
      exact h.found.append fun o ho ↦ (hos o ho).undispatched
    · obtain ⟨handle, rfl⟩ | rfl | rfl := hos' o ho <;> trivial

/-! The dispatch of a packet. -/

/-- Nothing that is dispatched is answered on a channel that is not open. -/
def AsksOpen (env : Env) (w : World) (payload : Bytes) : Prop :=
  w.s.phase = .run → w.s.chanOpen = false →
    (∀ want ∈ wantReply payload, want = 0) ∧ ∀ d ∈ dataPayload payload, ¬AdjustDue env w.obs w.s d

theorem takes_eq (henv : w.env = env) (hb : 0 ≤ w.s.backendHandle) (d : Bytes) :
    (itsSend w .backend w.s.backendHandle d).1 = takes env w.obs w.s d := by
  rw [takes, if_neg (not_lt.mpr hb), ← henv]
  rfl

variable {slot : ℤ} {payload : Bytes}

theorem LifeInv.effect (h : LifeInv env w) (hw : CanSend w.s) (henv : w.env = env)
    (hset : AsksOpen env w payload) (he : Effect P slot w payload w') : LifeInv env w' := by
  have hwant {want : UInt8} (hp : w.s.phase = .run) (ht : wantReply payload = some want)
      (hc : w.s.chanOpen = false) : want = 0 := (hset hp hc).1 want ht
  cases he with
  | steady _ hs => exact h.steady hs
  | bye _ hs code msg => exact (h.steady hs).bye (hs.aside.canSend hw) code msg
  | disconnect => exact h.hangUp
  | kexinit => exact h.move rfl hw.1 rfl
  | @exchange w₁ w₂ _ _ hash hs hs' =>
    have h₁ := h.steady hs
    have h₂ := (h₁.speaks (adoptHash_speaks w₁ hash) (by simp) (by simp)).steady hs'
    have hn : w₂.s.phase ≠ .closed := (hs'.aside.canSend
      ((adoptHash_aside w₁ hash).canSend (hs.aside.canSend hw))).1
    refine h₂.grow rfl (by simp [Obs.Undispatched]) (messageTypes_append w₂.obs _) ?_ ?_ ?_ fun _ ↦ rfl
    · simp [messageTypes, sentPayloads]
    · simp [messageTypes, sentPayloads]
    · exact fun hcl ↦ absurd hcl hn
  | newkeys => exact h.move rfl hw.1 rfl
  | success _ _ _ hs => exact (h.steady hs).move rfl (hs.aside.canSend hw).1 rfl
  | chanOpen _ hc _ => exact h.confirm hw hc _ _ _
  | reply hp ht ok => exact h.reply hw ok fun hc ↦ hwant hp ht hc
  | @backend w₁ hp want ht b _ hs ok =>
    have ha := hs.aside.trans (connectBackend_aside w₁ b slot)
    have h₂ := (h.steady hs).speaks (connectBackend_speaks w₁ b slot) (by simp) (by simp)
    exact h₂.reply (ha.canSend hw) ok fun hc ↦ hwant hp ht (ha.chanOpen ▸ hc)
  | @exec w₁ hp want ht b line _ hs _ =>
    have ha := hs.aside.trans (connectBackend_aside w₁ b slot)
    have h₂ := (h.steady hs).speaks (connectBackend_speaks w₁ b slot) (by simp) (by simp)
    have h₃ := h₂.reply (P := P) (ha.canSend hw) true fun hc ↦ hwant hp ht (ha.chanOpen ▸ hc)
    exact h₃.speaks (itsSend_speaks _ _ _ line) (by simp) (by simp)
  | data hp d hd hb =>
    have h₁ := h.speaks (itsSend_speaks w .backend w.s.backendHandle d) (by simp) (by simp)
    refine h₁.speaks (replenish_speaks (w := (itsSend w .backend w.s.backendHandle d).2) hw _)
      (fun t ht ↦ ?_) fun _ ↦ hw.1
    split at ht
    · rename_i hdue
      have hc : w.s.chanOpen = true := by
        by_contra hc
        refine (hset hp (Bool.not_eq_true _ ▸ hc)).2 d hd ?_
        rw [AdjustDue, ← takes_eq henv hb d]
        exact hdue
      rw [List.mem_singleton.mp ht]
      exact ⟨by decide, by decide, by decide, fun _ ↦ hc⟩
    · cases ht
  | @adjust _ add _ =>
    have hwide : LifeInv env (widenWindow w add) := h.move rfl hw.1 rfl
    exact hwide.drain hw
  | chanClose _ hc => exact h.closeChannel hw hc

/-- Where the channel is not open, the answer breaks the law. -/
theorem not_law {pre : List UInt8} {t : UInt8} (hpre : msgChannelOpenConfirm ∉ pre)
    (ht : t ∈ afterConfirm) : ¬ChannelLaw (pre ++ [t]) := by
  intro h
  exact hpre ((h pre t [] rfl).2.1 ht)

/-- A request for a reply on a channel that is not open. -/
theorem reply_breaks (hfresh : msgChannelOpenConfirm ∉ messageTypes w.obs) (hw : CanSend w.s)
    (hp : w.s.phase = .run) {want : UInt8} (ht : wantReply payload = some want) (hne : want ≠ 0)
    (he : Effect P slot w payload w') : ¬ChannelLaw (messageTypes w'.obs) := by
  have hhead := wantReply_head ht
  have hanswer {w₁ : World} {ts : List UInt8} (hs : Speaks ts w w₁) (hts : ∀ t ∈ ts, t ∉ channelTypes)
      {want' : UInt8} (ht' : wantReply payload = some want') (ok : Bool) :
      ¬ChannelLaw (messageTypes (replyIf P w₁ want' ok).obs) := by
    obtain rfl := Option.some.inj (ht.symm.trans ht')
    rw [(replyIf_speaks (hs.canSend hw) want ok).types, hs.types, replyTypes, if_pos hne]
    refine not_law (fun hm ↦ ?_) (by cases ok <;> decide)
    exact (List.mem_append.mp hm).elim hfresh fun hm ↦ hts _ hm (by decide)
  cases he with
  | steady hi _ => cases ht.symm.trans (hi.request hp)
  | bye hi _ => cases ht.symm.trans (hi.request hp)
  | disconnect ht' => cases hhead.symm.trans ht'
  | kexinit _ ht' => cases hhead.symm.trans ht'
  | exchange ht' => cases hhead.symm.trans ht'
  | newkeys ht' => cases hhead.symm.trans ht'
  | success _ ht' => cases hhead.symm.trans ht'
  | chanOpen _ _ ho => cases hhead.symm.trans (openRequest_head ho)
  | reply _ ht' ok => exact hanswer ((Aside.refl w).mute rfl) (by simp) ht' ok
  | @backend w₁ _ _ ht' b _ hs ok =>
    obtain ⟨ts, hspeaks, hplain, -⟩ := hs.speaks
    refine hanswer (hspeaks.trans (connectBackend_speaks w₁ b slot)) ?_ ht' ok
    simpa using hplain
  | @exec w₁ _ _ ht' b line _ hs _ =>
    obtain ⟨ts, hspeaks, hplain, -⟩ := hs.speaks
    rw [(itsSend_speaks _ _ _ line).types, List.append_nil]
    refine hanswer (hspeaks.trans (connectBackend_speaks w₁ b slot)) ?_ ht' true
    simpa using hplain
  | data _ d hd => cases hhead.symm.trans (dataPayload_head hd)
  | adjust _ ha => cases hhead.symm.trans (windowAdjust_head ha)
  | chanClose ht' => cases hhead.symm.trans ht'

/-- Data that make a window adjustment due on a channel that is not open. -/
theorem data_breaks (hfresh : msgChannelOpenConfirm ∉ messageTypes w.obs) (hw : CanSend w.s)
    (henv : w.env = env) (hp : w.s.phase = .run) {d : Bytes} (hd : dataPayload payload = some d)
    (hdue : AdjustDue env w.obs w.s d) (he : Effect P slot w payload w') :
    ¬ChannelLaw (messageTypes w'.obs) := by
  have hhead := dataPayload_head hd
  have hb : 0 ≤ w.s.backendHandle := by
    by_contra hb
    have hpos := hdue.1
    rw [takes, if_pos (not_le.mp hb)] at hpos
    exact absurd hpos (lt_irrefl 0)
  cases he with
  | steady hi _ => cases hd.symm.trans (hi.data hp hb)
  | bye hi _ => cases hd.symm.trans (hi.data hp hb)
  | disconnect ht' => cases hhead.symm.trans ht'
  | kexinit _ ht' => cases hhead.symm.trans ht'
  | exchange ht' => cases hhead.symm.trans ht'
  | newkeys ht' => cases hhead.symm.trans ht'
  | success _ ht' => cases hhead.symm.trans ht'
  | chanOpen _ _ ho => cases hhead.symm.trans (openRequest_head ho)
  | reply _ ht' => cases hhead.symm.trans (wantReply_head ht')
  | backend _ ht' => cases hhead.symm.trans (wantReply_head ht')
  | exec _ ht' => cases hhead.symm.trans (wantReply_head ht')
  | data _ d' hd' _ =>
    obtain rfl := Option.some.inj (hd.symm.trans hd')
    rw [AdjustDue, ← takes_eq henv hb d] at hdue
    have hs := replenish_speaks (P := P) (w := (itsSend w .backend w.s.backendHandle d).2) hw
      (itsSend w .backend w.s.backendHandle d).1
    have hdue' : 0 < (itsSend w .backend w.s.backendHandle d).1 ∧
        usedWindow (itsSend w .backend w.s.backendHandle d).2.s
          (itsSend w .backend w.s.backendHandle d).1 < localWindowMax / 2 := hdue
    rw [hs.types, if_pos hdue', (itsSend_speaks w .backend w.s.backendHandle d).types, List.append_nil]
    exact not_law hfresh (by decide)
  | adjust _ ha => cases hhead.symm.trans (windowAdjust_head ha)
  | chanClose ht' => cases hhead.symm.trans ht'

end

/-! Whole runs. -/

/-- Both the law and the condition are broken for good. -/
structure LifeBroken (env : Env) (w : World) : Prop where
  law : ¬ChannelLaw (messageTypes w.obs)
  found : ¬AllFindChannel env w.obs

section
variable {w w' : World} {payload : Bytes}

theorem LifeBroken.later (h : LifeBroken env w) (hp : w.obs <+: w'.obs) : LifeBroken env w' := by
  obtain ⟨os, hos⟩ := hp
  refine ⟨fun hl ↦ h.law ?_, fun hf ↦ h.found ?_⟩
  · rw [← hos, messageTypes_append] at hl
    exact (eachAfter_append.mp hl).1
  · rw [← hos] at hf
    exact (eachAfter_append.mp hf).1

theorem Turn.obs_grows (h : Turn P w w') : w.obs <+: w'.obs := by
  have hmoves := h.moves P
  clear h
  induction hmoves with
  | refl => exact List.prefix_rfl
  | tail _ hm ih => exact ih.trans hm.obs_grows

theorem LifeInv.dispatch (h : LifeInv env w) (hw : CanSend w.s) (henv : w.env = env) (slot : ℤ)
    (payload : Bytes) :
    LifeInv env (dispatchPacket P w payload slot).1 ∨
      LifeBroken env (dispatchPacket P w payload slot).1 := by
  have he := dispatchPacket_effect P w payload slot
  set w₁ := w.note (.dispatch w.s payload) with hw₁
  have htypes : messageTypes w₁.obs = messageTypes w.obs := by
    rw [hw₁, note_obs, messageTypes_append]
    exact List.append_nil _
  by_cases hf : FindsChannel env w.obs (.dispatch w.s payload)
  · have hnoted : LifeInv env w₁ :=
      ⟨htypes ▸ h.law, h.found.snoc hf, htypes ▸ h.confirmed, htypes ▸ h.unended⟩
    exact .inl (hnoted.effect hw henv hf he)
  · refine .inr ⟨?_, fun hfound ↦ ?_⟩
    · have hn := hf
      simp only [FindsChannel, not_forall, exists_prop] at hn
      obtain ⟨hp, hc, hasked⟩ := hn
      have hfresh : msgChannelOpenConfirm ∉ messageTypes w₁.obs := by
        rw [htypes, h.confirmed hw.1, hc]
        decide
      by_cases hwant : ∀ want ∈ wantReply payload, want = 0
      · have hdata : ¬∀ d ∈ dataPayload payload, ¬AdjustDue env w₁.obs w.s d :=
          fun hd ↦ hasked ⟨hwant, hd⟩
        simp only [not_forall, not_not] at hdata
        obtain ⟨d, hd, hdue⟩ := hdata
        exact data_breaks hfresh hw henv hp hd hdue he
      · simp only [not_forall] at hwant
        obtain ⟨want, ht, hne⟩ := hwant
        exact reply_breaks hfresh hw hp ht hne he
    · have hgrows : w₁.obs <+: (dispatchPacket P w payload slot).1.obs := he.outcome.obs_grows
      obtain ⟨os, hos⟩ := hgrows
      rw [← hos] at hfound
      exact hf (hfound w.obs (.dispatch w.s payload) os (by rw [hw₁]; simp))

/-- The invariant of every run. -/
structure LifeOrBroken (env : Env) (w : World) : Prop where
  up : Up w.s
  answers : w.env = env
  life : LifeInv env w ∨ LifeBroken env w

theorem LifeInv.turn (h : LifeInv env w) (hup : Up w.s) (henv : w.env = env) (ht : Turn P w w') :
    LifeInv env w' ∨ LifeBroken env w' := by
  cases ht with
  | steady hs => exact .inl (h.steady hs)
  | versionDone hp hs =>
    refine .inl ((h.steady hs).move rfl ?_ rfl)
    rw [hs.phase, hp]
    nofun
  | bye hp hs code msg =>
    exact .inl ((h.steady hs).bye (hs.aside.canSend ⟨hp, hup.linked hp⟩) code msg)
  | @packet w₁ payload hp hw =>
    have ha := parsePacket_aside P hw
    have hs : Speaks [] w w₁ := by
      refine ha.mute ?_
      obtain ⟨packet, rest, -, rfl⟩ := parsePacket_got P hw
      change sentPayloads (w.obs ++ [_]) = _
      rw [sentPayloads_append]
      exact List.append_nil _
    have henv₁ : w₁.env = env := by
      obtain ⟨packet, rest, -, rfl⟩ := parsePacket_got P hw
      exact henv
    exact (h.speaks hs (by simp) (by simp)).dispatch (ha.canSend ⟨hp.1, hup.linked hp.1⟩) henv₁ _ payload
  | drain hp _ => exact .inl (h.drain ⟨hp, hup.linked hp⟩)
  | farewell hp hc => exact .inl (h.farewell ⟨hp, hup.linked hp⟩ hc)
  | close => exact .inl h.close

theorem LifeOrBroken.turn (h : LifeOrBroken env w) (ht : Turn P w w') : LifeOrBroken env w' := by
  refine ⟨h.up.moves P (ht.moves P), ht.env_eq.trans h.answers, ?_⟩
  obtain hl | hb := h.life
  · exact hl.turn h.up h.answers ht
  · exact .inr (hb.later ht.obs_grows)

end

theorem lifeInv_accepted (slot : ℕ) (env : Env) (tcp : ℕ) : LifeInv env (accepted slot env tcp) := by
  obtain ⟨w, ha, hobs, hs⟩ := accepted_aside slot env tcp
  have hmute : Speaks [] w (accepted slot env tcp) := by
    refine ha.mute (hobs ▸ ?_)
    change sentPayloads (sendRawTcp _ _).obs = _
    rw [sendRawTcp]
    split <;> rfl
  have hfresh : LifeInv env w := by
    refine ⟨?_, ?_, fun _ ↦ ?_, fun _ ↦ ?_⟩ <;> rw [hobs]
    · exact eachAfter_nil _
    · exact eachAfter_singleton.mpr trivial
    · rw [hs]
      simp [messageTypes, sentPayloads, reset]
    · simp [messageTypes, sentPayloads]
  exact hfresh.speaks hmute (by simp) (by simp)

/-- In every run of a session its messages keep to the law of the channel
exactly when all that is answered on the channel finds it open. -/
theorem channelLaw_iff (P : Primitives) (env : Env) (slot tcp : ℕ) (events : List Event) :
    ChannelLaw (messageTypes (runFrom P slot (accepted slot env tcp) events).obs) ↔
      AllFindChannel env (runFrom P slot (accepted slot env tcp) events).obs := by
  have hinv : LifeOrBroken env (runFrom P slot (accepted slot env tcp) events) :=
    turn_induction P _ (fun _ _ h ht ↦ h.turn ht) slot tcp
      ⟨up_accepted slot env tcp, rfl, .inl (lifeInv_accepted slot env tcp)⟩ events
  obtain hl | hb := hinv.life
  · exact iff_of_true hl.law hl.found
  · exact iff_of_false hb.law hb.found

/-- A request for a terminal that wants a reply. -/
def clientPty : Bytes :=
  let p := putU32 (putU8 [] msgChannelRequest) 0
  let p := putCstring p "pty-req"
  putU8 p 1

/-- A client that asks for a terminal before it opens the channel gets its
reply all the same. -/
theorem early_reply_breaks_law :
    ¬ChannelLaw (messageTypes (sampleRun sampleEnv [clientPty]).obs) := by
  decide +kernel

end Sshd.Server

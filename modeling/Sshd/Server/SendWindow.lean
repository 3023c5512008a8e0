import Sshd.Lib.Credit
import Sshd.Server.OutputDelivery
import Sshd.Server.Traffic

namespace Sshd.Server

open Lib.Octets Lib.Trace Lib.Credit Wire Crypto
open Relation (ReflTransGen)

variable {P : Primitives}

/-! The client's window as the record has it: what its messages grant, and the
bytes of the data messages that the server sends, behind their type, channel
and length. -/

def granted : Obs → ℕ
  | .dispatch s payload => grant s payload
  | _ => 0

def sentData : Obs → Bytes
  | .sealed f => if f.payload.head? = some msgChannelData then f.payload.drop 9 else []
  | _ => []

def spent (o : Obs) : ℕ := (sentData o).length

/-- What the server read from the backend. -/
def readData : Obs → Bytes
  | .itsRecv _ data => data
  | _ => []

def maxPacketAfter (maxPacket : UInt32) : Obs → UInt32
  | .dispatch s payload =>
    if s.phase = .run ∧ s.chanOpen = false then
      ((openRequest payload).map fun r ↦ r.2.2).getD maxPacket
    else maxPacket
  | _ => maxPacket

/-- The packet size that the client gave for the channel. -/
def openedMaxPacket (obs : List Obs) : UInt32 := obs.foldl maxPacketAfter 0

def FitsPacket (pre : List Obs) (o : Obs) : Prop :=
  openedMaxPacket pre ≠ 0 → spent o ≤ (openedMaxPacket pre).toNat

/-- The server stays within the window and the packet size of the client, and
sends what it reads. For an open channel the fields of the session are the
client's: `peerWindow` counts down and up without passing below zero, and is
what is left of the window while 32 bits can hold what was granted. -/
structure SendsInWindow (w : World) : Prop where
  within : Within 0 granted spent w.obs
  packet : EachAfter FitsPacket w.obs
  backed : Backed granted spent w.obs
  counted : w.s.chanOpen = true → w.s.peerWindow = counter granted spent w.obs ∧
    w.s.peerMaxPacket = openedMaxPacket w.obs
  exact : w.s.chanOpen = true → tally granted w.obs < 2 ^ 32 →
    tally spent w.obs + w.s.peerWindow.toNat = tally granted w.obs
  inOrder : w.obs.flatMap sentData = w.obs.flatMap readData

/-- The invariant behind it. -/
structure SendInv (w : World) : Prop where
  packet : EachAfter FitsPacket w.obs
  backed : Backed granted spent w.obs
  counted : w.s.chanOpen = true → w.s.peerWindow = counter granted spent w.obs ∧
    w.s.peerMaxPacket = openedMaxPacket w.obs
  fresh : w.s.phase ≠ .closed → w.s.chanOpen = false → counter granted spent w.obs = 0
  inOrder : w.obs.flatMap sentData = w.obs.flatMap readData

/-- Entries that the ledger does not see. -/
structure Obs.OffLedger (o : Obs) : Prop where
  granted : granted o = 0
  sentData : sentData o = []
  readData : readData o = []
  maxPacket : ∀ m, maxPacketAfter m o = m

theorem Obs.OffLedger.spent {o : Obs} (h : o.OffLedger) : spent o = 0 := by
  rw [Server.spent, h.sentData]
  rfl

theorem Obs.Aside.offLedger {o : Obs} (h : o.Aside) : o.OffLedger := by
  cases o with
  | sealed f => exact ⟨rfl, if_neg h.1, rfl, fun _ ↦ rfl⟩
  | dispatch | itsRecv => exact h.elim
  | _ => exact ⟨rfl, rfl, rfl, fun _ ↦ rfl⟩

section
variable {w w' : World} {os : List Obs} {payload : Bytes}

theorem openedMaxPacket_append (h : ∀ o ∈ os, o.OffLedger) (obs : List Obs) :
    openedMaxPacket (obs ++ os) = openedMaxPacket obs := by
  rw [openedMaxPacket, List.foldl_append]
  refine List.foldlRecOn (motive := fun m ↦ m = obs.foldl maxPacketAfter 0) os maxPacketAfter rfl ?_
  intro m hm o ho
  rw [(h o ho).maxPacket, hm]

theorem fitsPacket_append (h : ∀ o ∈ os, o.OffLedger) (obs : List Obs) :
    EachAfter FitsPacket (obs ++ os) ↔ EachAfter FitsPacket obs := by
  rw [eachAfter_append]
  refine and_iff_left (EachAfter.of_forall fun o ho pre _ ↦ ?_)
  rw [(h o ho).spent]
  exact Nat.zero_le _

theorem inOrder_append {obs : List Obs} (h : ∀ o ∈ os, o.OffLedger)
    (ho : obs.flatMap sentData = obs.flatMap readData) :
    (obs ++ os).flatMap sentData = (obs ++ os).flatMap readData := by
  have hs : os.flatMap sentData = [] := List.flatMap_eq_nil_iff.mpr fun o ho ↦ (h o ho).sentData
  have hr : os.flatMap readData = [] := List.flatMap_eq_nil_iff.mpr fun o ho ↦ (h o ho).readData
  rw [List.flatMap_append, List.flatMap_append, hs, hr, ho]

theorem SendInv.grow (h : SendInv w) (hobs : w'.obs = w.obs ++ os) (hos : ∀ o ∈ os, o.OffLedger)
    (hp : w.s.phase = .closed → w'.s.phase = .closed) (hpeer : w'.s.peer = w.s.peer)
    (hc : w'.s.chanOpen = w.s.chanOpen ∨ w'.s.phase = .closed ∧ w'.s.chanOpen = false) :
    SendInv w' := by
  have hcounter : counter granted spent w'.obs = counter granted spent w.obs := by
    rw [hobs]
    exact counter_append (fun o ho ↦ (hos o ho).granted) fun o ho ↦ (hos o ho).spent
  have hwin : w'.s.peerWindow = w.s.peerWindow := congrArg Peer.window hpeer
  have hmax : w'.s.peerMaxPacket = w.s.peerMaxPacket := congrArg Peer.maxPacket hpeer
  refine ⟨?_, ?_, fun hopen ↦ ?_, fun hn hshut ↦ ?_, ?_⟩
  · rw [hobs]
    exact (fitsPacket_append hos w.obs).mpr h.packet
  · rw [hobs]
    exact (backed_append fun o ho ↦ (hos o ho).spent).mpr h.backed
  · obtain hsame | ⟨-, hshut⟩ := hc
    · rw [hwin, hmax, hcounter, hobs, openedMaxPacket_append hos]
      exact h.counted (hsame ▸ hopen)
    · cases hshut.symm.trans hopen
  · obtain hsame | ⟨hcl, -⟩ := hc
    · rw [hcounter]
      exact h.fresh (fun hcl ↦ hn (hp hcl)) (hsame ▸ hshut)
    · exact absurd hcl hn
  · rw [hobs]
    exact inOrder_append hos h.inOrder

theorem SendInv.aside (h : SendInv w) (ha : Aside w w') : SendInv w' := by
  obtain ⟨os, hobs, hos⟩ := ha.obs
  exact h.grow hobs (fun o ho ↦ (hos o ho).offLedger) ha.phase.mpr ha.peer (.inl ha.chanOpen)

theorem SendInv.bye (h : SendInv w) (code : UInt32) (msg : String) :
    SendInv (sendDisconnect P w code msg) := by
  set p := disconnect code msg with hdef
  have hhead : p.head? = some msgDisconnect := rfl
  have hobs : (sendDisconnect P w code msg).obs =
      w.obs ++ (sendObs P w p ++ [.itsDisconnect .tcp (sendPacket P w p).s.tcp]) := by
    rw [← List.append_assoc, ← sendPacket_obs]
    exact sendDisconnect_obs w code msg
  refine h.grow hobs (fun o ho ↦ ?_) (fun _ ↦ rfl) ?_ (.inl ?_)
  · rcases List.mem_append.mp ho with ho | ho
    · obtain ⟨bytes, rfl⟩ | ⟨f, rfl, hf⟩ | ⟨handle, data, took, rfl⟩ := mem_sendObs P ho
      · exact ⟨rfl, rfl, rfl, fun _ ↦ rfl⟩
      · refine ⟨rfl, if_neg ?_, rfl, fun _ ↦ rfl⟩
        rw [hf, hhead]
        decide
      · exact ⟨rfl, rfl, rfl, fun _ ↦ rfl⟩
    · rw [List.mem_singleton.mp ho]
      exact ⟨rfl, rfl, rfl, fun _ ↦ rfl⟩
  · exact sendPacket_peer w p
  · change (sendPacket P w p).s.chanOpen = _
    rw [sendPacket_s]

theorem SendInv.hangUp (h : SendInv w) : SendInv (hangUp w) :=
  h.grow rfl (by simpa using ⟨rfl, rfl, rfl, fun _ ↦ rfl⟩) (fun _ ↦ rfl) rfl (.inl rfl)

theorem SendInv.shut (h : SendInv w) : SendInv (shut w) :=
  h.grow (List.append_nil _).symm (by simp) (fun _ ↦ rfl) rfl (.inr ⟨rfl, rfl⟩)

theorem SendInv.close (h : SendInv w) (hobs : w'.obs = w.obs) (hpeer : w'.s.peer = w.s.peer)
    (hup : Up w'.s) : SendInv (sessionClose w') := by
  obtain ⟨os, hgrow, hos, hclosed, hkept⟩ := sessionClose_grows w'
  refine h.grow (hgrow.trans (by rw [hobs])) (fun o ho ↦ ?_) (fun _ ↦ hclosed) (hkept.trans hpeer)
    (.inr ⟨hclosed, sessionClose_chanOpen hup⟩)
  obtain ⟨handle, rfl⟩ | rfl | rfl := hos o ho <;> exact ⟨rfl, rfl, rfl, fun _ ↦ rfl⟩

/-! The dispatch of a packet, with what it changes about the channel. -/

theorem SendInv.inert (h : SendInv w) (hg : grant w.s payload = 0) :
    SendInv (w.note (.dispatch w.s payload)) := by
  have hcounter : counter granted spent (w.obs ++ [.dispatch w.s payload]) =
      counter granted spent w.obs := by
    refine counter_append ?_ ?_ <;> intro o ho <;> rw [List.mem_singleton.mp ho]
    · exact hg
    · rfl
  refine ⟨?_, ?_, fun hopen ↦ ?_, fun hn hshut ↦ ?_, ?_⟩
  · exact EachAfter.snoc h.packet fun _ ↦ Nat.zero_le _
  · exact backed_snoc.mpr ⟨h.backed, Nat.zero_le _⟩
  · obtain ⟨hwin, hmax⟩ := h.counted hopen
    refine ⟨hwin.trans hcounter.symm, hmax.trans ?_⟩
    have hkept : ¬(w.s.phase = .run ∧ w.s.chanOpen = false) := fun hr ↦ by
      cases hr.2.symm.trans hopen
    rw [note_obs, openedMaxPacket, openedMaxPacket, List.foldl_append]
    exact (if_neg hkept).symm
  · exact hcounter.trans (h.fresh hn hshut)
  · rw [note_obs, List.flatMap_append, List.flatMap_append, h.inOrder]
    rfl

theorem SendInv.open (h : SendInv w) (hp : w.s.phase = .run) (hc : w.s.chanOpen = false)
    {peerCh peerWin peerMax : UInt32} (ho : openRequest payload = some (peerCh, peerWin, peerMax)) :
    SendInv (openChannel (w.note (.dispatch w.s payload)) peerCh peerWin peerMax) := by
  have hgrant : grant w.s payload = peerWin.toNat := by
    rw [grant, if_neg (not_not.mpr hp), hc, ho]
    rfl
  have hzero : counter granted spent w.obs = 0 := h.fresh (by rw [hp]; decide) hc
  refine ⟨?_, ?_, fun _ ↦ ⟨?_, ?_⟩, fun _ hshut ↦ ?_, ?_⟩
  · exact EachAfter.snoc h.packet fun _ ↦ Nat.zero_le _
  · exact backed_snoc.mpr ⟨h.backed, Nat.zero_le _⟩
  · have hcounter : counter granted spent (w.obs ++ [.dispatch w.s payload]) =
        0 - .ofNat 0 + .ofNat (grant w.s payload) := by
      rw [counter_snoc, hzero]
      rfl
    rw [hgrant, UInt32.ofNat_toNat] at hcounter
    exact (hcounter.trans (UInt32.zero_add _)).symm
  · change peerMax = openedMaxPacket (w.obs ++ [.dispatch w.s payload])
    rw [openedMaxPacket, List.foldl_append]
    change peerMax = if w.s.phase = .run ∧ w.s.chanOpen = false then _ else _
    rw [if_pos ⟨hp, hc⟩, ho]
    rfl
  · cases hshut
  · change (w.obs ++ [_]).flatMap sentData = (w.obs ++ [_]).flatMap readData
    rw [List.flatMap_append, List.flatMap_append, h.inOrder]
    rfl

theorem SendInv.widen (h : SendInv w) (hp : w.s.phase = .run) {add : UInt32}
    (ha : windowAdjust payload = some add) :
    SendInv (widenWindow (w.note (.dispatch w.s payload)) add) := by
  have ho : openRequest payload = none := by
    refine Option.eq_none_iff_forall_ne_some.mpr fun r hr ↦ ?_
    cases (openRequest_head hr).symm.trans (windowAdjust_head ha)
  have hcounter : counter granted spent (w.obs ++ [.dispatch w.s payload]) =
      counter granted spent w.obs + .ofNat (grant w.s payload) := by
    rw [counter_snoc]
    exact congrArg (· + _) (UInt32.sub_zero _)
  refine ⟨?_, ?_, fun hopen ↦ ?_, fun hn hshut ↦ ?_, ?_⟩
  · exact EachAfter.snoc h.packet fun _ ↦ Nat.zero_le _
  · exact backed_snoc.mpr ⟨h.backed, Nat.zero_le _⟩
  · obtain ⟨hwin, hmax⟩ := h.counted hopen
    have hopen' : w.s.chanOpen = true := hopen
    have hgrant : grant w.s payload = add.toNat := by
      rw [grant, if_neg (not_not.mpr hp), if_pos hopen', ha]
      rfl
    have hkept : ¬(w.s.phase = .run ∧ w.s.chanOpen = false) := fun hr ↦ by
      cases hr.2.symm.trans hopen'
    refine ⟨?_, hmax.trans ?_⟩
    · rw [hgrant, UInt32.ofNat_toNat] at hcounter
      exact (congrArg (· + add) hwin).trans hcounter.symm
    · change _ = openedMaxPacket (w.obs ++ [.dispatch w.s payload])
      rw [openedMaxPacket, openedMaxPacket, List.foldl_append]
      exact (if_neg hkept).symm
  · have hshut' : w.s.chanOpen = false := hshut
    have hgrant : grant w.s payload = 0 := by
      rw [grant, if_neg (not_not.mpr hp), hshut', ho]
      rfl
    rw [hgrant] at hcounter
    refine (hcounter.trans (UInt32.add_zero _)).trans ?_
    exact h.fresh hn hshut
  · change (w.obs ++ [_]).flatMap sentData = (w.obs ++ [_]).flatMap readData
    rw [List.flatMap_append, List.flatMap_append, h.inOrder]
    rfl

/-! The drain loop. -/

theorem drainWant_maxPacket {s : Session} (h : s.peerMaxPacket ≠ 0) :
    drainWant s ≤ s.peerMaxPacket.toNat := by
  rw [drainWant]
  generalize (if s.peerWindow.toNat < 1024 then s.peerWindow.toNat else 1024) = want
  by_cases hm : s.peerMaxPacket.toNat < want
  · exact (if_pos ⟨h, hm⟩).le
  · exact (if_neg fun hlt ↦ hm hlt.2).trans_le (not_lt.mp hm)

theorem SendInv.round (h : SendInv w) (hup : CanSend w.s) (hc : w.s.chanOpen = true) {got : Bytes}
    {handle : ℤ} {w₁ : World} (hs : w₁.s = w.s) (hobs : w₁.obs = w.obs ++ [.itsRecv handle got])
    (hwin : got.length ≤ w.s.peerWindow.toNat)
    (hmax : w.s.peerMaxPacket ≠ 0 → got.length ≤ w.s.peerMaxPacket.toNat) :
    SendInv ((sendChannelData P w₁ got).modify fun s ↦
      { s with peerWindow := s.peerWindow - UInt32.ofNat got.length }) := by
  obtain ⟨hcount, hsize⟩ := h.counted hc
  have hopen : ¬(w₁.s.phase = .closed ∨ w₁.s.tcp < 0) := by
    rw [hs]
    rintro (hcl | hcl)
    · exact hup.1 hcl
    · exact absurd hup.2 (not_le.mpr hcl)
  set f := sendFrame w₁ (channelData w₁.s got) with hf
  have hdata : sentData (.sealed f) = got := by
    have hpay : f.payload = channelData w₁.s got := rfl
    have hhead : f.payload.head? = some msgChannelData := rfl
    rw [sentData, if_pos hhead, hpay, channelData, putString_eq]
    rfl
  have hspent : spent (.sealed f) = got.length := by rw [spent, hdata]
  -- The data message and what is on record around it.
  have hoff : ∀ o ∈ [Obs.itsRecv handle got, .random f.pad],
      granted o = 0 ∧ spent o = 0 ∧ ∀ m, maxPacketAfter m o = m := by
    simp [granted, spent, sentData, maxPacketAfter]
  set obs₁ := w.obs ++ [Obs.itsRecv handle got, .random f.pad] with hobs₁
  have hcounter₁ : counter granted spent obs₁ = counter granted spent w.obs :=
    counter_append (fun o ho ↦ (hoff o ho).1) fun o ho ↦ (hoff o ho).2.1
  have hmax₁ : openedMaxPacket obs₁ = openedMaxPacket w.obs := by
    rw [hobs₁, openedMaxPacket, List.foldl_append]
    rfl
  have hpacket₁ : EachAfter FitsPacket obs₁ := by
    refine eachAfter_append.mpr ⟨h.packet, EachAfter.of_forall fun o ho pre _ ↦ ?_⟩
    rw [(hoff o ho).2.1]
    exact Nat.zero_le _
  have hbacked₁ : Backed granted spent obs₁ :=
    (backed_append fun o ho ↦ (hoff o ho).2.1).mpr h.backed
  have hpacket₂ : EachAfter FitsPacket (obs₁ ++ [.sealed f]) := by
    refine hpacket₁.snoc ?_
    rw [FitsPacket, hmax₁, ← hsize, hspent]
    exact hmax
  have hbacked₂ : Backed granted spent (obs₁ ++ [.sealed f]) := by
    refine backed_snoc.mpr ⟨hbacked₁, ?_⟩
    rw [hspent, hcounter₁, ← hcount]
    exact hwin
  set sent := Obs.itsSend .tcp w₁.s.tcp (f.bytes P) (itsSend ((w₁.note (.random f.pad)).note (.sealed f))
    .tcp w₁.s.tcp (f.bytes P)).1 with hsent
  have hsentOff : ∀ o ∈ [sent], o.OffLedger := by
    intro o ho
    rw [List.mem_singleton.mp ho]
    exact ⟨rfl, rfl, rfl, fun _ ↦ rfl⟩
  have hall : (sendChannelData P w₁ got).obs = obs₁ ++ [.sealed f] ++ [sent] := by
    rw [sendChannelData, sendPacket_obs, sendObs, if_neg hopen, hobs, hobs₁, List.append_assoc,
      List.append_assoc, List.append_assoc]
    rfl
  have hsess : (sendChannelData P w₁ got).s =
      { w.s with seqOut := (sendChannelData P w₁ got).s.seqOut } := by
    rw [sendChannelData, sendPacket_s, hs]
  refine ⟨?_, ?_, fun _ ↦ ⟨?_, ?_⟩, fun _ hshut ↦ ?_, ?_⟩
  · rw [modify_obs, hall]
    exact (fitsPacket_append hsentOff _).mpr hpacket₂
  · rw [modify_obs, hall]
    exact (backed_append fun o ho ↦ (hsentOff o ho).spent).mpr hbacked₂
  · have hcounter₂ : counter granted spent (obs₁ ++ [.sealed f]) =
        counter granted spent w.obs - .ofNat got.length := by
      rw [counter_snoc, hspent, hcounter₁]
      exact UInt32.add_zero _
    rw [modify_obs, hall, counter_append (fun o ho ↦ (hsentOff o ho).granted)
      fun o ho ↦ (hsentOff o ho).spent, hcounter₂, ← hcount, modify_s, hsess]
  · rw [modify_obs, hall, openedMaxPacket_append hsentOff, openedMaxPacket, List.foldl_append,
      modify_s, hsess]
    exact hsize.trans hmax₁.symm
  · rw [modify_s, hsess] at hshut
    cases hc.symm.trans hshut
  · rw [modify_obs, hall]
    refine inOrder_append hsentOff ?_
    have hread : ([Obs.itsRecv handle got, .random f.pad] ++ [Obs.sealed f]).flatMap readData = got :=
      List.append_nil got
    have hwrite : ([Obs.itsRecv handle got, .random f.pad] ++ [Obs.sealed f]).flatMap sentData = got :=
      (List.append_nil _).trans hdata
    rw [hobs₁, List.append_assoc, List.flatMap_append, hwrite, h.inOrder]
    conv_rhs => rw [List.flatMap_append, hread]

theorem SendInv.drainLoop (fuel : ℕ) (h : SendInv w) (hup : CanSend w.s) :
    SendInv (drainLoop P fuel w) := by
  induction fuel generalizing w with
  | zero => exact h
  | succ fuel ih =>
    unfold Server.drainLoop
    split
    swap
    · exact h
    rename_i hgo
    obtain ⟨hwant, hle⟩ := drainWant_bounds hgo.1
    obtain ⟨-, hlen, -⟩ := itsRecv_spec w w.s.backendHandle hwant
    have hs : (itsRecv w w.s.backendHandle (drainWant w.s)).2.s = w.s := rfl
    have hobs : (itsRecv w w.s.backendHandle (drainWant w.s)).2.obs =
        w.obs ++ [.itsRecv w.s.backendHandle (itsRecv w w.s.backendHandle (drainWant w.s)).1] := rfl
    generalize itsRecv w w.s.backendHandle (drainWant w.s) = r at hlen hs hobs ⊢
    simp only
    split
    · rename_i hempty
      rw [hempty] at hobs
      refine h.grow hobs ?_ (fun hcl ↦ hs ▸ hcl) (congrArg Session.peer hs) (.inl (by rw [hs]))
      intro o ho
      rw [List.mem_singleton.mp ho]
      exact ⟨rfl, rfl, rfl, fun _ ↦ rfl⟩
    · refine ih (h.round hup hgo.2 hs hobs (hlen.trans hle) fun hne ↦
        hlen.trans (drainWant_maxPacket hne)) ?_
      have hsess : (sendChannelData P r.2 r.1).s =
          { w.s with seqOut := (sendChannelData P r.2 r.1).s.seqOut } := by
        rw [sendChannelData, sendPacket_s, hs]
      rw [modify_s, hsess]
      exact hup

theorem SendInv.drain (h : SendInv w) (hup : CanSend w.s) : SendInv (sessionOnBackendData P w) := by
  unfold sessionOnBackendData
  split
  · exact h
  · exact h.drainLoop _ hup

theorem SendInv.dispatch (h : SendInv w) (hup : CanSend w.s)
    (ht : Traffic P (w.note (.dispatch w.s payload)) payload w') : SendInv w' := by
  cases ht with
  | aside hi ha => exact (h.inert hi.grant).aside ha
  | bye hi ha code msg => exact ((h.inert hi.grant).aside ha).bye code msg
  | disconnect ht => exact (h.inert (grant_of_head (by rw [ht]; decide) (by rw [ht]; decide))).hangUp
  | chanOpen hp hc ho ha => exact (h.open hp hc ho).aside ha
  | adjust hp ha => exact (h.widen hp ha).drain hup
  | chanClose hi _ ha => exact ((h.inert hi.grant).aside ha).shut

theorem SendInv.turn (h : SendInv w) (hup : Up w.s) (ht : Turn P w w') : SendInv w' := by
  cases ht with
  | steady hs => exact h.aside (hs.aside P)
  | versionDone hp hs =>
    refine (h.aside (hs.aside P)).aside (.modify _ _ rfl ⟨nofun, fun hc ↦ ?_⟩)
    cases hp.symm.trans (hs.phase.symm.trans hc)
  | bye _ hs code msg => exact (h.aside (hs.aside P)).bye code msg
  | @packet w₁ payload hp hw =>
    have ha := parsePacket_aside P hw
    refine (h.aside ha).dispatch ⟨fun hc ↦ hp.1 (ha.phase.mp hc), ?_⟩
      (dispatchPacket_traffic P w₁ payload w₁.s.slot)
    rw [ha.tcp]
    exact hup.linked hp.1
  | drain hp _ => exact h.drain ⟨hp, hup.linked hp⟩
  | farewell _ _ =>
    obtain ⟨w₁, ha, he⟩ := farewell_aside P w
    refine (h.aside ha).close (by rw [he]; rfl) (by rw [he]; rfl) ?_
    exact hup.moves P (farewell_moves P w)
  | close => exact h.close rfl rfl hup

end

theorem sendInv_accepted (slot : ℕ) (env : Env) (tcp : ℕ) : SendInv (accepted slot env tcp) := by
  obtain ⟨w, ha, hobs, hs⟩ := accepted_aside slot env tcp
  refine SendInv.aside ⟨?_, ?_, fun hopen ↦ ?_, fun _ _ ↦ ?_, ?_⟩ ha
  · rw [hobs]
    exact eachAfter_singleton.mpr fun _ ↦ Nat.zero_le _
  · rw [hobs]
    exact eachAfter_singleton.mpr (Nat.zero_le _)
  · rw [hs] at hopen
    cases hopen
  · rw [hobs]
    exact counter_append (l := []) (by simp [granted]) (by simp [spent, sentData])
  · rw [hobs]
    rfl

/-- In every run of a session the server keeps to the client's window. -/
theorem server_sends_in_window (P : Primitives) (env : Env) (slot tcp : ℕ) (events : List Event) :
    SendsInWindow (runFrom P slot (accepted slot env tcp) events) := by
  have hinv := turn_induction P (fun w ↦ Up w.s ∧ SendInv w)
    (fun w w' h ht ↦ ⟨h.1.moves P (ht.moves P), h.2.turn h.1 ht⟩) slot tcp
    ⟨up_accepted slot env tcp, sendInv_accepted slot env tcp⟩ events
  obtain ⟨-, h⟩ := hinv
  refine ⟨h.backed.within, h.packet, h.backed, h.counted, fun hc hfit ↦ ?_, h.inOrder⟩
  rw [(h.counted hc).1]
  exact h.backed.account.2 hfit

end Sshd.Server

import Sshd.Dialogue
import Sshd.Client.FirstExchange

namespace Sshd.Client

open Lib.Octets Wire Crypto Framing

variable (P : Primitives)

/-! What a client asks, and when. -/

/-- What is given to `out_write`. -/
def printed (obs : List Obs) : Bytes :=
  obs.flatMap fun o ↦ match o with
    | .output d _ => d
    | _ => []

/-- What a message shows the user. -/
def shown (payload : Bytes) : Bytes :=
  if payload.head? = some msgChannelData then (dataOf payload).getD []
  else if payload.head? = some msgChannelExtendedData then (extendedDataOf payload).getD []
  else []

/-- What a place waits for the answer to. -/
def Pc.waits : Pc → Option Query
  | .kexEcdhReply | .newkeys => some .exchange
  | .serviceAccept => some .service
  | .noneProbe | .publickey | .keyboardInteractive | .password => some .login
  | .channelOpen => some .channel
  | .ptyReq | .channelRequest => some .request
  | .version | .kexinit | .pump | .finished => none

/-- What has not been asked yet. -/
def Pc.ahead : Pc → List Query
  | .version | .kexinit => [.exchange, .service, .login, .channel, .request]
  | .kexEcdhReply | .newkeys => [.service, .login, .channel, .request]
  | .serviceAccept => [.login, .channel, .request]
  | .noneProbe | .publickey | .keyboardInteractive | .password => [.channel, .request]
  | .channelOpen => [.request]
  | .ptyReq | .channelRequest | .pump | .finished => []

/-- From `w` to `w'` nothing is read, `ps` is said and `d` is shown. -/
structure Utters (ps : List Bytes) (d : Bytes) (w w' : World) : Prop where
  openings : openings w'.obs = openings w.obs
  said : said (frames w'.obs) = said (frames w.obs) ++ ps
  printed : printed w'.obs = printed w.obs ++ d
  given : w'.job.given = w.job.given

/-- The types that pass a place by before the pump. -/
def passingTypes : List UInt8 :=
  [msgUserauthBanner, msgUserauthInfoRequest, msgGlobalRequest, msgChannelWindowAdjust]

/-- The types of what the pump says. -/
def pumpTypes : List UInt8 :=
  [msgRequestFailure, msgChannelWindowAdjust, msgChannelData, msgChannelEof, msgChannelClose]

/-- Messages of the pump. -/
def Pumped (ps : List Bytes) : Prop := ∀ p ∈ ps, ∃ b ∈ pumpTypes, p.head? = some b

/-- What a return of `recv_packet` leads to; `w` has it on record. -/
inductive Proceeds (w : World) (t : ℤ) (pkt : Bytes) : World → Prop
  | gaveUp {w'} (h : Utters [] [] w w') (hpc : w'.pc = .finished) (hp : w.pc ≠ .pump) :
      Proceeds w t pkt w'
  | stays {w' ps} (h : Utters ps [] w w') (hpc : w'.pc = w.pc)
      (ht : ∃ b ∈ passingTypes, t = b.toNat)
      (hps : ∀ p ∈ ps, ∃ b ∈ [msgRequestFailure, msgUserauthInfoResponse], p.head? = some b) :
      Proceeds w t pkt w'
  | keyed {w' p} (hp : w.pc = .kexEcdhReply) (ht : t = msgKexEcdhReply.toNat)
      (hh : p.head? = some msgNewkeys) (h : Utters [p] [] w w') (hpc : w'.pc = .newkeys) :
      Proceeds w t pkt w'
  | asks {w' q p} (h : Utters [p] [] w w') (hw : w'.pc.waits = some q)
      (ha : w'.pc.ahead ⊆ w.pc.ahead)
      (hq : p.length < 2 ^ 32 → q.asks p = true ∧ probes p = false)
      (hs : w.pc = .noneProbe ∨ ∃ b ∉ [msgChannelData, msgChannelExtendedData], t = b.toNat)
      (hl : q = .channel → t = msgUserauthSuccess.toNat)
      (hr : q = .request → w.pc = .channelOpen ∨
        w.pc = .ptyReq ∧ (t = msgChannelSuccess.toNat ∨ t = msgChannelFailure.toNat))
      (hc : q = .request → w'.pc = .ptyReq ∧ (∃ cs size, p = ptyReqPayload cs size) ∨
        ∃ cs, p = commandPayload w.job cs) : Proceeds w t pkt w'
  | pumps {w' ps d} (h : Utters ps d w w') (hpc : w'.pc = .pump ∨ w'.pc = .finished)
      (hp : w.pc = .pump ∧ d = shown pkt ∨
        w.pc = .channelRequest ∧ t = msgChannelSuccess.toNat ∧ d = [])
      (hps : Pumped ps) : Proceeds w t pkt w'

/-- What `recv_packet` returns. -/
inductive Returns : ℤ → Bytes → Prop
  | packet (b : UInt8) (body : Bytes) : Returns b.toNat (b :: body)
  | nothing {t : ℤ} (ht : t = 0 ∨ t = -1 ∨ t = -2) : Returns t []

section
variable {P} {ps qs : List Bytes} {d e : Bytes} {w w₁ w' : World}

theorem printed_append (obs os : List Obs) : printed (obs ++ os) = printed obs ++ printed os :=
  List.flatMap_append

theorem Utters.trans (h : Utters ps d w w₁) (h' : Utters qs e w₁ w') :
    Utters (ps ++ qs) (d ++ e) w w' :=
  ⟨h'.openings.trans h.openings, by rw [h'.said, h.said, List.append_assoc],
    by rw [h'.printed, h.printed, List.append_assoc], h'.given.trans h.given⟩

/-- In front of it nothing is said or shown. -/
theorem Utters.after (h : Utters ps d w₁ w') (h' : Utters [] [] w w₁) : Utters ps d w w' :=
  h'.trans h

/-- Nothing is said or shown behind it. -/
theorem Utters.before (h : Utters ps d w w₁) (h' : Utters [] [] w₁ w') : Utters ps d w w' := by
  have ht := h.trans h'
  rwa [List.append_nil, List.append_nil] at ht

theorem Utters.grow (os : List Obs) (hobs : w'.obs = w.obs ++ os) (ho : Client.openings os = [])
    (hf : frames os = []) (hg : w'.job.given = w.job.given) : Utters [] (Client.printed os) w w' := by
  refine ⟨?_, ?_, ?_, hg⟩
  · rw [hobs, openings_append, ho, List.append_nil]
  · rw [hobs, frames_append, hf, List.append_nil, List.append_nil]
  · rw [hobs, printed_append]

theorem Utters.same (hobs : w'.obs = w.obs) (hg : w'.job.given = w.job.given) :
    Utters [] [] w w' :=
  .grow [] (hobs.trans (List.append_nil _).symm) rfl rfl hg

theorem Utters.refl (w : World) : Utters [] [] w w := .same rfl rfl

theorem Utters.modify (w : World) (f : Csess → Csess) : Utters [] [] w (w.modify f) := .same rfl rfl

theorem Utters.goto (w : World) (pc : Pc) : Utters [] [] w (w.goto pc) := .same rfl rfl

theorem Utters.note (w : World) {o : Obs} (ho : Client.openings [o] = []) (hf : frames [o] = [])
    (hp : Client.printed [o] = []) : Utters [] [] w (w.note o) := by
  have h : Utters [] (Client.printed [o]) w (w.note o) := .grow _ rfl ho hf rfl
  rwa [hp] at h

theorem printed_sendObs (w : World) (payload : Bytes) : printed (sendObs P w payload) = [] := by
  refine List.flatMap_eq_nil_iff.mpr fun o ho ↦ ?_
  obtain ⟨_, rfl⟩ | ⟨_, rfl, _⟩ | ⟨_, _, rfl⟩ := mem_sendObs P w payload ho <;> rfl

theorem Utters.send (w : World) (payload : Bytes) :
    Utters [payload] [] w (sendPacket P w payload) := by
  obtain ⟨hf, ho, -⟩ := sendPacket_adds (P := P) w payload
  refine ⟨ho, ?_, ?_, by rw [sendPacket_job]⟩
  · rw [hf, said_append]
    rfl
  · rw [sendPacket_obs, printed_append, printed_sendObs]

theorem Utters.say (w : World) (payload : Bytes) (pc : Pc) :
    Utters [payload] [] w ((sendPacket P w payload).goto pc) :=
  (Utters.send w payload).before (.goto _ pc)

theorem Utters.giveUp (w : World) (msg : Bytes) : Utters [] [] w (giveUp w msg) :=
  .grow [.itsDisconnect w.cs.handle] rfl rfl rfl rfl

theorem Utters.finishChannel (w : World) : Utters [] [] w (finishChannel w) := by
  refine .grow [.itsDisconnect w.cs.handle] rfl rfl rfl ?_
  unfold Client.finishChannel
  simp only
  split <;> rfl

theorem Utters.outWrite (w : World) (data : Bytes) : Utters [] data w (outWrite w data) := by
  unfold Client.outWrite
  split
  · rename_i hd
    rw [hd]
    exact .refl w
  · have h (took : List ℕ) :
        Utters [] (Client.printed [.output data took]) w (w.note (.output data took)) :=
      .grow _ rfl rfl rfl rfl
    simp only [Client.printed, List.flatMap_singleton] at h
    exact h _

end

/-! The queries. -/

theorem probes_of_head {payload : Bytes} {b : UInt8} (hp : payload.head? = some b) (hb : b ≠ 50) :
    probes payload = false := by
  obtain ⟨body, rfl⟩ : ∃ body, payload = b :: body := List.head?_eq_some_iff.mp hp
  exact if_pos hb

/-- A request for a method that is read back from it. -/
theorem userauthRequest_probes {user more : Bytes} {method : String}
    (hm : (ascii method).length < 2 ^ 32)
    (hlen : (userauthRequest user method ++ more).length < 2 ^ 32)
    (hmore : ascii method = ascii "publickey" → ∃ b rest, more = b :: rest ∧ b ≠ 0) :
    probes (userauthRequest user method ++ more) = false := by
  set strings : List Bytes := [user, ascii "ssh-connection", ascii method] with hstrings
  have hbody : userauthRequest user method ++ more =
      msgUserauthRequest :: ((strings.map lenPrefixed).flatten ++ more) := by
    simp [hstrings, userauthRequest, putU8, putCstring]
  have hshort : ((strings.map lenPrefixed).flatten ++ more).length < sizeMod := by
    rw [hbody, List.length_cons] at hlen
    exact Nat.lt_of_succ_lt hlen
  have hx : ∀ x ∈ strings, x.length < 2 ^ 32 := by
    intro x hx
    simp only [hstrings, List.mem_cons, List.not_mem_nil, or_false] at hx
    obtain rfl | rfl | rfl := hx
    · simp only [hstrings, List.map_cons, List.flatten_cons, List.length_append,
        lenPrefixed_length] at hshort
      exact lt_of_le_of_lt (by omega) hshort
    · decide
    · exact hm
  obtain ⟨v, ht, hv, hb, hr⟩ := takeStrings_of_rest (viewInit_ok _) rfl hx (rest_viewInit hshort)
  have hread : takeStrings 3 (viewInit ((strings.map lenPrefixed).flatten ++ more)) =
      some ([user, ascii "ssh-connection", ascii method], v) := ht
  have hfifty : ¬msgUserauthRequest ≠ 50 := not_not.mpr rfl
  rw [hbody, probes, if_neg hfifty, hread, decide_eq_false_iff_not]
  rintro ⟨hmethod, hzero⟩
  obtain ⟨b, rest, rfl, hne⟩ := hmore hmethod
  obtain ⟨v', hg, -⟩ := getU8_of_rest hv hb hr
  rw [hg] at hzero
  exact hne hzero

/-- A channel request as it is read. -/
theorem request_read {ch : UInt32} {type more : Bytes} {want : UInt8}
    (hlen : (putU8 (putString (putU32 (putU8 [] msgChannelRequest) ch) type) want ++ more).length <
      2 ^ 32) :
    ∃ body v, putU8 (putString (putU32 (putU8 [] msgChannelRequest) ch) type) want ++ more =
        msgChannelRequest :: body ∧
      getString (getU32 (viewInit body)).2 = (some type, v) ∧ (getU8 v).1 = want := by
  set body := be32 ch.toNat ++ (lenPrefixed type ++ want :: more) with hbody
  have he : putU8 (putString (putU32 (putU8 [] msgChannelRequest) ch) type) want ++ more =
      msgChannelRequest :: body := by
    simp [hbody, putU8, putU32]
  rw [he, List.length_cons] at hlen
  have htype : type.length < 2 ^ 32 := by
    simp only [hbody, List.length_append, lenPrefixed_length] at hlen
    omega
  obtain ⟨v₁, hg₁, hv₁, hb₁, hr₁⟩ := getU32_of_rest (viewInit_ok body) rfl ch.toNat_lt
    (rest_viewInit (Nat.lt_of_succ_lt hlen))
  obtain ⟨v₂, hg₂, hv₂, hb₂, hr₂⟩ := getString_of_rest hv₁ hb₁ htype hr₁
  obtain ⟨v₃, hg₃, -⟩ := getU8_of_rest hv₂ hb₂ hr₂
  exact ⟨body, v₂, he, by rw [hg₁, hg₂], by rw [hg₃]⟩

theorem asks_request {ch : UInt32} {type more : Bytes}
    (hlen : (putU8 (putString (putU32 (putU8 [] msgChannelRequest) ch) type) 1 ++ more).length <
      2 ^ 32) :
    Query.request.asks
      (putU8 (putString (putU32 (putU8 [] msgChannelRequest) ch) type) 1 ++ more) = true := by
  obtain ⟨body, v, he, hs, hw⟩ := request_read hlen
  have hwant : Server.wantReply (msgChannelRequest :: body) = some 1 := by
    simp only [Server.wantReply, hs, hw]
    exact if_neg (not_not.mpr rfl)
  rw [he, Query.asks, hwant]
  rfl

/-! The handlers. -/

section
variable {P} {w w₁ : World} {t : ℤ} {pkt : Bytes}

theorem Proceeds.giveUp (h : Utters [] [] w w₁) (hp : w.pc ≠ .pump) (msg : Bytes) :
    Proceeds w t pkt (giveUp w₁ msg) := .gaveUp ((Utters.giveUp w₁ msg).after h) rfl hp

/-- A query known by its type. -/
theorem asks_of_type {q : Query} {payload : Bytes} {b : UInt8} (hp : payload.head? = some b)
    (hb : b ∉ [50, 98]) (hq : q.asks [b] = true) : q.asks payload = true ∧ probes payload = false := by
  rw [List.mem_cons, List.mem_singleton, not_or] at hb
  exact ⟨(q.asks_of_head hp hb.2).trans hq, probes_of_head hp hb.1⟩

theorem onKexinit_proceeds (hp : w.pc = .kexinit) : Proceeds w t pkt (onKexinit P w t pkt) := by
  have hn : w.pc ≠ .pump := by rw [hp]; decide
  unfold onKexinit
  split
  · exact .giveUp (.refl w) hn _
  split
  · exact .giveUp (.refl w) hn _
  rename_i ht
  have hset : Utters [] [] w (w.modify fun cs ↦ { cs with peerKexInit := pkt }) := .modify w _
  simp only
  split
  · exact .giveUp hset hn _
  have hdraw (w : World) : Utters [] [] w (randomBytes w 32).2 := .note w rfl rfl rfl
  unfold sendEcdhInit
  simp only
  have hpriv (priv : Bytes) := ((Utters.modify _ fun cs ↦ { cs with ephPriv := priv }).after
    (hdraw (w.modify fun cs ↦ { cs with peerKexInit := pkt }))).after hset
  split
  · exact .giveUp (hpriv _) hn _
  rename_i pub _
  refine .asks (q := .exchange) ((Utters.say _ _ .kexEcdhReply).after
    ((Utters.modify _ fun cs ↦ { cs with ephPub := pub }).after (hpriv _))) rfl ?_ (fun _ ↦ ?_)
    (.inr ⟨msgKexinit, by decide, not_not.mp ht⟩) nofun nofun nofun
  · rw [hp]
    exact fun q hq ↦ List.mem_cons_of_mem _ hq
  · refine asks_of_type (b := msgKexEcdhInit) ?_ (by decide) (by decide)
    rw [putString_eq]
    rfl

theorem onKexEcdhReply_proceeds (hp : w.pc = .kexEcdhReply) :
    Proceeds w t pkt (onKexEcdhReply P w t pkt) := by
  have hn : w.pc ≠ .pump := by rw [hp]; decide
  unfold onKexEcdhReply
  split
  · exact .giveUp (.refl w) hn _
  split
  · exact .giveUp (.refl w) hn _
  rename_i ht
  split
  · exact .giveUp (.refl w) hn _
  rename_i ks qs sig _
  have hset : Utters [] [] w (w.modify fun cs ↦ { cs with peerEphPub := qs }) := .modify w _
  simp only
  split
  · exact .giveUp hset hn _
  split
  · exact .giveUp hset hn _
  rename_i hpub _ _ sig64 _
  unfold verifyHost
  split
  · exact .giveUp hset hn _
  rename_i k _
  simp only
  have hid (h : Bytes) (ok : Bool) := (((Utters.note _ (o := .verify hpub h sig64 ok) rfl rfl rfl).after
    (.modify _ fun cs ↦ { cs with sessionId := h })).after
      (.modify _ fun cs ↦ { cs with sharedK := k })).after hset
  split
  swap
  · exact .giveUp (hid _ _) hn _
  unfold checkKnownHosts
  simp only
  have hknown (w : World) (store : List Bytes) (host fp : Bytes) (ok : Bool) :
      Utters [] [] w ({ w with knownHosts := store }.note (.knownHosts host fp ok)) :=
    (Utters.note { w with knownHosts := store } rfl rfl rfl).after (.same rfl rfl)
  split
  swap
  · exact .giveUp ((hknown _ _ _ _ _).after (hid _ _)) hn _
  unfold switchKeys
  refine .keyed (p := putU8 [] msgNewkeys) hp (not_not.mp ht) rfl (Utters.before ?_ (.goto _ _)) rfl
  exact (((((Utters.send _ _).before (.modify _ _)).before (.modify _ _)).before (.modify _ _)).after
    (hknown _ _ _ _ _)).after (hid _ _)

theorem onNewkeys_proceeds (hp : w.pc = .newkeys) : Proceeds w t pkt (onNewkeys P w t) := by
  have hn : w.pc ≠ .pump := by rw [hp]; decide
  unfold onNewkeys
  split
  · exact .giveUp (.refl w) hn _
  split
  · exact .giveUp (.refl w) hn _
  rename_i ht
  refine .asks (q := .service) ((Utters.say _ _ .serviceAccept).after (.modify w _)) rfl ?_
    (fun _ ↦ ?_) (.inr ⟨msgNewkeys, by decide, not_not.mp ht⟩) nofun nofun nofun
  · rw [hp]
    exact fun q hq ↦ List.mem_cons_of_mem _ hq
  · refine asks_of_type (b := msgServiceRequest) ?_ (by decide) (by decide)
    rw [putCstring, putString_eq]
    rfl

/-! User authentication. -/

/-- A request for a method, from a place of the login. -/
theorem Proceeds.request (h : Utters [] [] w w₁) (hl : Query.channel ∈ w.pc.ahead)
    (hs : w.pc = .noneProbe ∨ ∃ b ∉ [msgChannelData, msgChannelExtendedData], t = b.toNat)
    {user more : Bytes} {method : String} {pc : Pc} (hpc : pc.waits = some .login)
    (ha : pc.ahead = [.channel, .request]) (hm : (ascii method).length < 2 ^ 32)
    (hmore : ascii method = ascii "publickey" → ∃ b rest, more = b :: rest ∧ b ≠ 0) :
    Proceeds w t pkt ((sendPacket P w₁ (userauthRequest user method ++ more)).goto pc) := by
  refine .asks (q := .login) ((Utters.say w₁ _ pc).after h) hpc ?_ (fun hlen ↦ ?_) hs nofun nofun
    nofun
  · intro q hq
    have hq' : q ∈ pc.ahead := hq
    rw [ha] at hq'
    revert hl hq'
    cases w.pc <;> cases q <;> simp [Pc.ahead]
  · refine ⟨?_, userauthRequest_probes hm hlen hmore⟩
    rw [Query.asks, userauthRequest_head]
    rfl

theorem onServiceAccept_proceeds (hp : w.pc = .serviceAccept) :
    Proceeds w t pkt (onServiceAccept P w t) := by
  have hn : w.pc ≠ .pump := by rw [hp]; decide
  unfold onServiceAccept
  split
  · exact .giveUp (.refl w) hn _
  split
  · exact .giveUp (.refl w) hn _
  rename_i ht
  have hset : Utters [] [] w { w with offeredMethods := [] } := .same rfl rfl
  have hr : Proceeds w t pkt ((sendPacket P { w with offeredMethods := [] }
      (userauthRequest w.job.user "none" ++ [])).goto .noneProbe) :=
    .request hset (by rw [hp]; decide) (.inr ⟨msgServiceAccept, by decide, not_not.mp ht⟩) rfl rfl
      (by decide) fun h ↦ absurd h (by decide)
  rwa [List.append_nil] at hr

section
variable (h : Utters [] [] w w₁) (hn : w.pc ≠ .pump) (hl : Query.channel ∈ w.pc.ahead)
  (hs : w.pc = .noneProbe ∨ ∃ b ∉ [msgChannelData, msgChannelExtendedData], t = b.toNat)

include h hn in
theorem authFailed_proceeds : Proceeds w t pkt (authFailed w₁) := by
  unfold authFailed
  split <;> exact .giveUp h hn _

include h hl hs in
theorem authPassword_proceeds : Proceeds w t pkt (authPassword P w₁) := by
  have hp : passwordRequest w₁.job.user w₁.job.password =
      userauthRequest w₁.job.user "password" ++ (0 :: lenPrefixed w₁.job.password) := by
    rw [passwordRequest, putString_eq, putU8, List.append_assoc]
    rfl
  unfold authPassword
  rw [hp]
  exact .request h hl hs rfl rfl (by decide) fun h ↦ absurd h (by decide)

include h hn hl hs in
theorem authKeyboardInteractive_proceeds : Proceeds w t pkt (authKeyboardInteractive P w₁) := by
  unfold authKeyboardInteractive
  split
  · have hp : keyboardInteractiveRequest w₁.job.user =
        userauthRequest w₁.job.user "keyboard-interactive" ++
          (lenPrefixed (ascii "") ++ lenPrefixed (ascii "")) := by
      rw [keyboardInteractiveRequest, putCstring, putCstring, putString_eq, putString_eq,
        List.append_assoc]
    rw [hp]
    exact .request h hl hs rfl rfl (by decide) fun h ↦ absurd h (by decide)
  · exact authFailed_proceeds h hn

include h hn hl hs in
theorem authPublickey_proceeds : Proceeds w t pkt (authPublickey P w₁) := by
  unfold authPublickey
  split
  swap
  · exact authKeyboardInteractive_proceeds h hn hl hs
  split
  · exact .giveUp h hn _
  rename_i pub _
  simp only
  split
  · exact .giveUp h hn _
  rename_i sig _
  have hp : publickeyRequest w₁.job.user (pubkeyBlob pub) sig =
      userauthRequest w₁.job.user "publickey" ++ (1 :: (lenPrefixed (ascii "ssh-ed25519") ++
        (lenPrefixed (pubkeyBlob pub) ++
          lenPrefixed (putString (putCstring [] "ssh-ed25519") sig)))) := by
    simp [publickeyRequest, publickeyClaim, putU8, putCstring]
  rw [hp]
  exact .request h hl hs rfl rfl (by decide) fun _ ↦ ⟨1, _, rfl, by decide⟩

include h hl in
theorem startChannel_proceeds (ht : t = msgUserauthSuccess.toNat) :
    Proceeds w t pkt (startChannel P w₁) := by
  refine .asks (q := .channel) ((Utters.say w₁ _ .channelOpen).after h) rfl ?_ (fun _ ↦ ?_)
    (.inr ⟨_, by decide, ht⟩) (fun _ ↦ ht) nofun nofun
  · intro q hq
    have hq' : q ∈ Pc.ahead .channelOpen := hq
    revert hl hq'
    cases w.pc <;> cases q <;> simp [Pc.ahead]
  · exact asks_of_type (b := msgChannelOpen)
      (by simp [channelOpenPayload, putU8, putU32, putCstring]) (by decide) (by decide)

end

theorem noteFailureMethods_utters (w : World) (pkt : Bytes) :
    Utters [] [] w (noteFailureMethods w pkt) := by
  unfold noteFailureMethods
  split <;> exact .same rfl rfl

theorem Proceeds.pass {b : UInt8} (hb : b ∈ passingTypes) (ht : t = b.toNat) : Proceeds w t pkt w :=
  .stays (.refl w) rfl ⟨b, hb, ht⟩ nofun

theorem onNoneProbe_proceeds (hp : w.pc = .noneProbe) :
    Proceeds w t pkt (onNoneProbe P (startChannel P) w t pkt) := by
  have hn : w.pc ≠ .pump := by rw [hp]; decide
  have hl : Query.channel ∈ w.pc.ahead := by rw [hp]; decide
  unfold onNoneProbe
  split
  · rename_i ht
    exact .pass (by decide) ht
  split
  · rename_i ht
    exact startChannel_proceeds (.refl w) hl ht
  split
  · exact authPublickey_proceeds (noteFailureMethods_utters w pkt) hn hl (.inl hp)
  split
  · exact .giveUp (.refl w) hn _
  · exact authPublickey_proceeds (.refl w) hn hl (.inl hp)

theorem simpleResult_success (h : simpleResult t = .success) : t = msgUserauthSuccess.toNat := by
  unfold simpleResult at h
  split at h
  · assumption
  split at h <;> cases h

theorem simpleResult_type (h : simpleResult t ≠ .error) :
    ∃ b ∉ [msgChannelData, msgChannelExtendedData], t = b.toNat := by
  unfold simpleResult at h
  split at h
  · exact ⟨msgUserauthSuccess, by decide, by assumption⟩
  split at h
  · exact ⟨msgUserauthFailure, by decide, by assumption⟩
  · exact absurd rfl h

theorem onPublickey_proceeds (hp : w.pc = .publickey) :
    Proceeds w t pkt (onPublickey P (startChannel P) w t pkt) := by
  have hn : w.pc ≠ .pump := by rw [hp]; decide
  have hl : Query.channel ∈ w.pc.ahead := by rw [hp]; decide
  unfold onPublickey
  split
  · rename_i ht
    exact .pass (by decide) ht
  split
  · rename_i hr
    exact startChannel_proceeds (.refl w) hl (simpleResult_success hr)
  · rename_i hr
    exact authKeyboardInteractive_proceeds (noteFailureMethods_utters w pkt) hn hl
      (.inr (simpleResult_type (by rw [hr]; decide)))
  · exact .giveUp (.refl w) hn _

theorem onKeyboardInteractive_proceeds (hp : w.pc = .keyboardInteractive) :
    Proceeds w t pkt (onKeyboardInteractive P (startChannel P) w t pkt) := by
  have hn : w.pc ≠ .pump := by rw [hp]; decide
  have hl : Query.channel ∈ w.pc.ahead := by rw [hp]; decide
  unfold onKeyboardInteractive
  split
  · rename_i ht
    exact .pass (by decide) ht
  split
  · rename_i ht
    split
    · exact .giveUp (.refl w) hn _
    · refine .stays (.send w _) (sendPacket_pc P w _) ⟨_, by decide, ht⟩ fun p hp ↦ ?_
      rw [List.mem_singleton.mp hp]
      exact ⟨_, by decide, infoResponse_head _ _⟩
  split
  · rename_i hr
    exact startChannel_proceeds (.refl w) hl (simpleResult_success hr)
  · rename_i hr
    exact authPassword_proceeds (noteFailureMethods_utters w pkt) hl
      (.inr (simpleResult_type (by rw [hr]; decide)))
  · exact .giveUp (.refl w) hn _

theorem onPassword_proceeds (hp : w.pc = .password) :
    Proceeds w t pkt (onPassword (startChannel P) w t pkt) := by
  have hn : w.pc ≠ .pump := by rw [hp]; decide
  have hl : Query.channel ∈ w.pc.ahead := by rw [hp]; decide
  unfold onPassword
  split
  · rename_i ht
    exact .pass (by decide) ht
  split
  · rename_i hr
    exact startChannel_proceeds (.refl w) hl (simpleResult_success hr)
  · exact authFailed_proceeds (noteFailureMethods_utters w pkt) hn
  · exact .giveUp (.refl w) hn _

/-! The channel. -/

theorem Proceeds.channelRecv {k : World → ℤ → Bytes → World} (hk : Proceeds w t pkt (k w t pkt)) :
    Proceeds w t pkt (channelRecv P k w t pkt) := by
  unfold Client.channelRecv
  split
  · rename_i ht
    have hpass : Proceeds w t pkt w := .pass (by decide) ht
    unfold onGlobalRequest
    split
    · exact hpass
    split
    · refine .stays (.send w _) (sendPacket_pc P w _) ⟨_, by decide, ht⟩ fun p hp ↦ ?_
      rw [List.mem_singleton.mp hp]
      exact ⟨msgRequestFailure, by decide, rfl⟩
    · exact hpass
  split
  · rename_i ht
    exact .stays (.modify w _) rfl ⟨_, by decide, ht⟩ nofun
  · exact hk

/-- A command goes by its job as it was given. -/
theorem commandPayload_given {job job' : SshJob} (h : job.given = job'.given) (cs : Csess) :
    commandPayload job cs = commandPayload job' cs := by
  unfold commandPayload
  have hcmd : job.haveCmd = job'.haveCmd := congrArg Given.haveCmd h
  have hcommand : job.command = job'.command := congrArg Given.command h
  rw [hcmd, hcommand]

theorem commandPayload_eq (job : SshJob) (cs : Csess) : ∃ type more,
    type ∈ [ascii "shell", ascii "exec"] ∧ commandPayload job cs =
      putU8 (putString (putU32 (putU8 [] msgChannelRequest) cs.peerChannel) type) 1 ++ more := by
  unfold commandPayload
  split
  · exact ⟨ascii "exec", lenPrefixed job.command, by decide, putString_eq _ _⟩
  · exact ⟨ascii "shell", [], by decide, (List.append_nil _).symm⟩

theorem commandPayload_head (job : SshJob) (cs : Csess) :
    (commandPayload job cs).head? = some msgChannelRequest := by
  obtain ⟨type, more, -, he⟩ := commandPayload_eq job cs
  rw [he, putString_eq]
  rfl

theorem asks_commandPayload {job : SshJob} {cs : Csess}
    (hlen : (commandPayload job cs).length < 2 ^ 32) :
    Query.request.asks (commandPayload job cs) = true ∧ probes (commandPayload job cs) = false := by
  refine ⟨?_, probes_of_head (commandPayload_head job cs) (by decide)⟩
  obtain ⟨type, more, -, he⟩ := commandPayload_eq job cs
  rw [he] at hlen ⊢
  exact asks_request hlen

theorem requestCommand_proceeds (h : Utters [] [] w w₁)
    (hs : ∃ b ∉ [msgChannelData, msgChannelExtendedData], t = b.toNat)
    (hr : w.pc = .channelOpen ∨ w.pc = .ptyReq ∧
      (t = msgChannelSuccess.toNat ∨ t = msgChannelFailure.toNat)) :
    Proceeds w t pkt (requestCommand P w₁) :=
  .asks (q := .request) ((Utters.say w₁ _ .channelRequest).after h) rfl (List.nil_subset _)
    asks_commandPayload (.inr hs) nofun (fun _ ↦ hr)
    fun _ ↦ .inr ⟨w₁.cs, commandPayload_given h.given _⟩

theorem ptyReqPayload_eq (cs : Csess) (size : UInt32 × UInt32) : ∃ more, ptyReqPayload cs size =
    putU8 (putString (putU32 (putU8 [] msgChannelRequest) cs.peerChannel) (ascii "pty-req")) 1 ++
      more := by
  refine ⟨lenPrefixed (ascii "xterm") ++ (be32 size.1.toNat ++ (be32 size.2.toNat ++
    (be32 (0 : UInt32).toNat ++ (be32 (0 : UInt32).toNat ++ lenPrefixed [0])))), ?_⟩
  simp only [ptyReqPayload, putString_eq, putCstring, putU8, putU32, List.append_assoc,
    List.nil_append]

theorem asks_ptyReqPayload {cs : Csess} {size : UInt32 × UInt32}
    (hlen : (ptyReqPayload cs size).length < 2 ^ 32) :
    Query.request.asks (ptyReqPayload cs size) = true ∧ probes (ptyReqPayload cs size) = false := by
  obtain ⟨more, he⟩ := ptyReqPayload_eq cs size
  refine ⟨?_, probes_of_head (b := msgChannelRequest) ?_ (by decide)⟩
  · rw [he] at hlen ⊢
    exact asks_request hlen
  · rw [he, putString_eq]
    rfl

theorem onChannelOpen_proceeds (hp : w.pc = .channelOpen) :
    Proceeds w t pkt (onChannelOpen P w t pkt) := by
  have hn : w.pc ≠ .pump := by rw [hp]; decide
  unfold onChannelOpen
  split
  · exact .giveUp (.refl w) hn _
  split
  · exact .giveUp (.refl w) hn _
  split
  · exact .giveUp (.refl w) hn _
  rename_i ht
  have hs : ∃ b ∉ [msgChannelData, msgChannelExtendedData], t = b.toNat :=
    ⟨msgChannelOpenConfirm, by decide, not_not.mp ht⟩
  simp only
  split
  · exact .asks (q := .request) ((Utters.say _ _ .ptyReq).after (.modify w _)) rfl
      (List.nil_subset _) asks_ptyReqPayload (.inr hs) nofun (fun _ ↦ .inl hp)
      fun _ ↦ .inl ⟨rfl, _, _, rfl⟩
  · exact requestCommand_proceeds (.modify w _) hs (.inl hp)

theorem onPtyReq_proceeds (hp : w.pc = .ptyReq) : Proceeds w t pkt (onPtyReq P w t) := by
  have hn : w.pc ≠ .pump := by rw [hp]; decide
  unfold onPtyReq
  split
  · exact .giveUp (.refl w) hn _
  split
  · rename_i ht
    refine requestCommand_proceeds (.refl w) ?_ (.inr ⟨hp, ht.symm⟩)
    obtain ht | ht := ht
    · exact ⟨msgChannelFailure, by decide, ht⟩
    · exact ⟨msgChannelSuccess, by decide, ht⟩
  · exact .giveUp (.refl w) hn _

/-! The pump. -/

theorem Pumped.append {ps qs : List Bytes} (h : Pumped ps) (h' : Pumped qs) : Pumped (ps ++ qs) :=
  fun p hp ↦ (List.mem_append.mp hp).elim (h p) (h' p)

/-- From `w` to `w'` the pump talks and shows `d`. -/
def Pumps (d : Bytes) (w w' : World) : Prop := ∃ ps, Pumped ps ∧ Utters ps d w w'

theorem Pumps.trans {d e : Bytes} {w' : World} (h : Pumps d w w₁) (h' : Pumps e w₁ w') :
    Pumps (d ++ e) w w' := by
  obtain ⟨ps, hps, hu⟩ := h
  obtain ⟨qs, hqs, hu'⟩ := h'
  exact ⟨ps ++ qs, hps.append hqs, hu.trans hu'⟩

theorem Pumps.before {d : Bytes} {w' : World} (h : Pumps d w w₁) (h' : Pumps [] w₁ w') :
    Pumps d w w' := by
  have ht := h.trans h'
  rwa [List.append_nil] at ht

theorem Utters.pumps {d : Bytes} (h : Utters [] d w w₁) : Pumps d w w₁ := ⟨[], nofun, h⟩

theorem Pumps.send (w : World) {payload : Bytes} {b : UInt8} (hp : payload.head? = some b)
    (hb : b ∈ pumpTypes) : Pumps [] w (sendPacket P w payload) := by
  refine ⟨[payload], fun p hm ↦ ?_, .send w payload⟩
  rw [List.mem_singleton.mp hm]
  exact ⟨b, hb, hp⟩

theorem pumpLoop_pumps (fuel : ℕ) (w : World) : Pumps [] w (pumpLoop P fuel w) := by
  induction fuel generalizing w with
  | zero => exact (Utters.refl w).pumps
  | succ fuel ih =>
    unfold pumpLoop
    simp only
    split
    · exact (Utters.refl w).pumps
    · have htake : Utters [] [] w
          ({ w with typed := w.typed.drop 256 }.note (.typed (w.typed.take 256))) :=
        .grow [.typed (w.typed.take 256)] rfl rfl rfl rfl
      refine htake.pumps.trans (.trans (.send _ (b := msgChannelData) ?_ (by decide)) (ih _))
      rw [channelData, putString_eq]
      rfl

theorem pumpTop_pumps (w : World) : Pumps [] w (pumpTop P w) ∧
    ((pumpTop P w).pc = .pump ∨ (pumpTop P w).pc = .finished) := by
  unfold pumpTop
  split
  swap
  · exact ⟨(Utters.goto w .pump).pumps, .inl rfl⟩
  have hin : Pumps [] w (pumpInput P w) := by
    unfold pumpInput
    split
    · exact pumpLoop_pumps _ w
    · exact (Utters.refl w).pumps
  simp only
  split
  · refine ⟨hin.trans (.trans (.send _ (b := msgChannelEof) rfl (by decide))
      (.trans (.send _ (b := msgChannelClose) rfl (by decide)) (Utters.finishChannel _).pumps)), .inr ?_⟩
    rfl
  · exact ⟨hin.trans (Utters.goto _ .pump).pumps, .inl rfl⟩

theorem onChannelRequest_proceeds (hp : w.pc = .channelRequest) :
    Proceeds w t pkt (onChannelRequest P w t) := by
  have hn : w.pc ≠ .pump := by rw [hp]; decide
  unfold onChannelRequest
  split
  · exact .giveUp (.refl w) hn _
  split
  · exact .giveUp (.refl w) hn _
  split
  · exact .giveUp (.refl w) hn _
  rename_i ht
  simp only
  have heof : Pumps [] w (if w.job.haveCmd = true then sendPacket P w (channelEof w.cs) else w) := by
    split
    · exact .send w (b := msgChannelEof) rfl (by decide)
    · exact (Utters.refl w).pumps
  generalize (if w.job.haveCmd = true then sendPacket P w (channelEof w.cs) else w) = w₁ at heof ⊢
  obtain ⟨htop, hpc⟩ := pumpTop_pumps (P := P) w₁
  obtain ⟨ps, hps, hu⟩ := heof.trans htop
  exact .pumps hu hpc (.inr ⟨hp, not_not.mp ht, rfl⟩) hps

theorem replenish_pumps (w : World) (n : ℕ) : Pumps [] w (replenish P w n) := by
  by_cases hu : usedWindow w.cs n < localWindowMax / 2
  · rw [replenish_adjust P hu]
    exact (Utters.modify w _).pumps.trans (.trans (.send _ (b := msgChannelWindowAdjust) rfl
      (by decide)) (Utters.modify _ _).pumps)
  · rw [replenish_none P hu]
    exact (Utters.modify w _).pumps

/-- A message that shows nothing. -/
theorem shown_of_head {payload : Bytes} {b : UInt8} (hp : payload.head? = some b)
    (hb : b ∉ [msgChannelData, msgChannelExtendedData]) : shown payload = [] := by
  rw [List.mem_cons, List.mem_singleton, not_or] at hb
  rw [shown, hp, if_neg fun h ↦ hb.1 (Option.some.inj h), if_neg fun h ↦ hb.2 (Option.some.inj h)]

theorem pumpSwitch_pumps (w : World) {b : UInt8} (hb : pkt.head? = some b) :
    Pumps (shown pkt) w (pumpSwitch P w b pkt).1 := by
  have hnone (hne : b ∉ [msgChannelData, msgChannelExtendedData]) {w' : World}
      (h : Pumps [] w w') : Pumps (shown pkt) w w' := by
    rw [shown_of_head hb hne]
    exact h
  unfold pumpSwitch
  split
  · rename_i hd
    rw [shown, hb, if_pos (congrArg some hd)]
    unfold onData
    split
    · rename_i hnone
      rw [hnone]
      exact (Utters.refl w).pumps
    · rename_i d hsome
      rw [hsome]
      exact (Utters.outWrite w d).pumps.before (replenish_pumps _ _)
  rename_i hd
  split
  · rename_i he
    rw [shown, hb, if_neg fun h ↦ hd (Option.some.inj h), if_pos (congrArg some he)]
    unfold onExtendedData
    split
    · rename_i hnone
      rw [hnone]
      exact (Utters.refl w).pumps
    · rename_i d hsome
      rw [hsome]
      exact (Utters.outWrite w d).pumps
  rename_i he
  have hne : b ∉ [msgChannelData, msgChannelExtendedData] := by
    rw [List.mem_cons, List.mem_singleton, not_or]
    exact ⟨hd, he⟩
  split
  · have hadjust : Utters [] [] w (onWindowAdjust w pkt) := .same rfl rfl
    exact hnone hne hadjust.pumps
  split
  · refine hnone hne (Utters.pumps ?_)
    unfold onServerRequest
    split
    · exact .refl w
    simp only
    split
    · exact .same rfl rfl
    · exact .refl w
  split
  · exact hnone hne (.send w (b := msgChannelClose) rfl (by decide))
  split
  · exact hnone hne (Utters.refl w).pumps
  split
  · refine hnone hne ?_
    unfold onGlobalRequest
    split
    · exact (Utters.refl w).pumps
    split
    · exact .send w (b := msgRequestFailure) rfl (by decide)
    · exact (Utters.refl w).pumps
  · exact hnone hne (Utters.refl w).pumps

theorem onPump_proceeds (hp : w.pc = .pump) (hr : Returns t pkt) :
    Proceeds w t pkt (onPump P w t pkt) := by
  have hpumps {w' : World} (h : Pumps (shown pkt) w w') (hpc : w'.pc = .pump ∨ w'.pc = .finished) :
      Proceeds w t pkt w' := by
    obtain ⟨ps, hps, hu⟩ := h
    exact .pumps hu hpc (.inl ⟨hp, rfl⟩) hps
  have hset (msg : String) : Pumps [] w (finishChannel (setMsg w msg)) := by
    have hmsg : Utters [] [] w (setMsg w msg) := .same rfl rfl
    exact ((Utters.finishChannel _).after hmsg).pumps
  cases hr with
  | nothing ht =>
    unfold onPump
    split
    · split
      · obtain ⟨htop, hpc⟩ := pumpTop_pumps (P := P) w
        exact hpumps htop hpc
      · exact hpumps (hset _) (.inr rfl)
    split
    · exact hpumps (hset _) (.inr rfl)
    split
    · exact hpumps (Utters.finishChannel w).pumps (.inr rfl)
    · rename_i h₀ h₁ h₂
      exact absurd ht (by simp [h₀, h₁, h₂])
  | packet b body =>
    have hneg : ¬(b.toNat : ℤ) = -1 ∧ ¬(b.toNat : ℤ) = -2 := by omega
    have hbyte : UInt8.ofNat (b.toNat : ℤ).toNat = b := by
      rw [Int.toNat_natCast, UInt8.ofNat_toNat]
    have hswitch : Pumps (shown (b :: body)) w (pumpSwitch P w b (b :: body)).1 :=
      pumpSwitch_pumps w rfl
    unfold onPump
    split
    · rename_i hz
      -- a message of type 0 passes for a timeout
      have hb : b = 0 := UInt8.toNat_inj.mp (by simpa using hz)
      have hsh : shown (b :: body) = [] := shown_of_head (b := b) rfl (by rw [hb]; decide)
      rw [hsh] at hpumps
      split
      · obtain ⟨htop, hpc⟩ := pumpTop_pumps (P := P) w
        exact hpumps htop hpc
      · exact hpumps (hset _) (.inr rfl)
    rw [if_neg hneg.1, if_neg hneg.2, hbyte]
    split
    · rename_i w₁ hw₁
      rw [hw₁] at hswitch
      exact hpumps (hswitch.before (Utters.finishChannel w₁).pumps) (.inr rfl)
    · rename_i w₁ hw₁
      rw [hw₁] at hswitch
      obtain ⟨htop, hpc⟩ := pumpTop_pumps (P := P) w₁
      exact hpumps (hswitch.before htop) hpc

theorem resume_proceeds (hp : w.pc ≠ .version ∧ w.pc ≠ .finished) (hr : Returns t pkt) :
    Proceeds w t pkt (resume P w t pkt) := by
  unfold resume
  cases hpc : w.pc with
  | version => exact absurd hpc hp.1
  | kexinit => exact onKexinit_proceeds hpc
  | kexEcdhReply => exact onKexEcdhReply_proceeds hpc
  | newkeys => exact onNewkeys_proceeds hpc
  | serviceAccept => exact onServiceAccept_proceeds hpc
  | noneProbe => exact onNoneProbe_proceeds hpc
  | publickey => exact onPublickey_proceeds hpc
  | keyboardInteractive => exact onKeyboardInteractive_proceeds hpc
  | password => exact onPassword_proceeds hpc
  | channelOpen => exact (onChannelOpen_proceeds hpc).channelRecv
  | ptyReq => exact .channelRecv (k := fun w t _ ↦ onPtyReq P w t) (onPtyReq_proceeds hpc)
  | channelRequest =>
    exact .channelRecv (k := fun w t _ ↦ onChannelRequest P w t) (onChannelRequest_proceeds hpc)
  | pump => exact onPump_proceeds hpc hr
  | finished => exact absurd hpc hp.2

end

end Sshd.Client

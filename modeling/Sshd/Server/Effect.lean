import Sshd.Server.Steady
import Sshd.Server.Outcome

namespace Sshd.Server

open Lib.Octets Wire Crypto

variable (P : Primitives)

/-! What dispatching one packet does to a session, message by message: the
transitions of `Outcome` with the channel traffic told apart. -/

/-- The channel, window and packet size of a request for a session channel. -/
def openRequest (payload : Bytes) : Option (UInt32 × UInt32 × UInt32) :=
  match payload with
  | [] => none
  | type :: body =>
    if type ≠ msgChannelOpen then none else
    match getString (viewInit body) with
    | (none, _) => none
    | (some typeStr, v) =>
      let (peerCh, v) := getU32 v
      let (peerWin, v) := getU32 v
      let (peerMax, v) := getU32 v
      if v.bad ∨ typeStr ≠ ascii "session" then none else some (peerCh, peerWin, peerMax)

/-- What a window adjustment adds. -/
def windowAdjust (payload : Bytes) : Option UInt32 :=
  match payload with
  | [] => none
  | type :: body =>
    if type ≠ msgChannelWindowAdjust then none
    else some (getU32 (getU32 (viewInit body)).2).1

/-- The reply flag of a channel request. -/
def wantReply (payload : Bytes) : Option UInt8 :=
  match payload with
  | [] => none
  | type :: body =>
    if type ≠ msgChannelRequest then none else
    match getString (getU32 (viewInit body)).2 with
    | (none, _) => none
    | (some _, v) => some (getU8 v).1

/-- The window a message grants to a session `s`: the initial window of the
channel it opens, or an adjustment of the open channel. -/
def grant (s : Session) (payload : Bytes) : ℕ :=
  if s.phase ≠ .run then 0
  else if s.chanOpen then ((windowAdjust payload).getD 0).toNat
  else ((openRequest payload).map fun r ↦ r.2.1.toNat).getD 0

/-- A message that neither grants window nor ends the session. -/
structure Inert (s : Session) (payload : Bytes) : Prop where
  grant : grant s payload = 0
  head : payload.head? ≠ some msgDisconnect

/-- A message that asks for nothing on the channel either: no reply, no backend
to write to. -/
structure Unasked (s : Session) (payload : Bytes) : Prop extends Inert s payload where
  request : s.phase = .run → wantReply payload = none
  data : s.phase = .run → 0 ≤ s.backendHandle → dataPayload payload = none

def widenWindow (w : World) (add : UInt32) : World :=
  w.modify fun s ↦ { s with peerWindow := s.peerWindow + add }

/-- `w` is the session with the dispatch of `payload` on record. -/
inductive Effect (slot : ℤ) (w : World) (payload : Bytes) : World → Prop
  | steady {w'} (hi : Unasked w.s payload) (h : Steady P w w') : Effect slot w payload w'
  | bye {w'} (hi : Unasked w.s payload) (h : Steady P w w') (code : UInt32) (msg : String) :
      Effect slot w payload (sendDisconnect P w' code msg)
  | disconnect (ht : payload.head? = some msgDisconnect) : Effect slot w payload (hangUp w)
  | kexinit (alg : KexAlg) (ht : payload.head? = some msgKexinit)
      (hp : w.s.phase = .kexWaitKexinit ∨ w.s.phase = .run) (hs : selectKexAlg payload = some alg) :
      Effect slot w payload
        (w.modify fun s ↦ { s with peerKexInit := payload, kexAlg := alg, phase := .kexWaitEcdh })
  | exchange {w₁ w₂} (ht : payload.head? = some msgKexEcdhInit) (hp : w.s.phase = .kexWaitEcdh)
      (hash : Bytes) (h : Steady P w w₁) (h' : Steady P (adoptHash w₁ hash) w₂) :
      Effect slot w payload (switchOutbound P w₂)
  | newkeys (ht : payload.head? = some msgNewkeys) (hp : w.s.phase = .kexWaitNewkeys) :
      Effect slot w payload (handleNewkeys w)
  | success {w'} (hp : w.s.phase = .auth) (ht : payload.head? = some msgUserauthRequest)
      (hj : ByPublickey P w.env w.obs w.s payload ∨ ByPassword w.env w.obs payload)
      (h : Steady P w w') :
      Effect slot w payload (w'.modify fun s ↦ { s with authed := true, phase := .run })
  | chanOpen (hp : w.s.phase = .run) (hc : w.s.chanOpen = false) {peerCh peerWin peerMax : UInt32}
      (ho : openRequest payload = some (peerCh, peerWin, peerMax)) :
      Effect slot w payload (sendChannelOpenConfirm P (openChannel w peerCh peerWin peerMax))
  | reply (hp : w.s.phase = .run) {want : UInt8} (ht : wantReply payload = some want) (ok : Bool) :
      Effect slot w payload (replyIf P w want ok)
  | backend {w₁} (hp : w.s.phase = .run) {want : UInt8} (ht : wantReply payload = some want)
      (b : Backend) (hr : (backendRequest payload).isSome) (h : Steady P w w₁) (ok : Bool) :
      Effect slot w payload (replyIf P (connectBackend w₁ b slot) want ok)
  | exec {w₁} (hp : w.s.phase = .run) {want : UInt8} (ht : wantReply payload = some want)
      (b : Backend) (line : Bytes) (hr : backendRequest payload = some (.cli, .line, line))
      (h : Steady P w w₁)
      (hh : 0 ≤ (replyIf P (connectBackend w₁ b slot) want true).s.backendHandle) :
      Effect slot w payload
        (itsSend (replyIf P (connectBackend w₁ b slot) want true) .backend
          (replyIf P (connectBackend w₁ b slot) want true).s.backendHandle line).2
  | data (hp : w.s.phase = .run) (d : Bytes) (hd : dataPayload payload = some d)
      (hb : 0 ≤ w.s.backendHandle) :
      Effect slot w payload (replenish P (itsSend w .backend w.s.backendHandle d).2
        (itsSend w .backend w.s.backendHandle d).1)
  | adjust (hp : w.s.phase = .run) {add : UInt32} (ha : windowAdjust payload = some add) :
      Effect slot w payload (sessionOnBackendData P (widenWindow w add))
  | chanClose (ht : payload.head? = some msgChannelClose) (hc : w.s.chanOpen = true) :
      Effect slot w payload (shut (sendChannelClose P (dropBackend w)))

theorem openRequest_head {payload : Bytes} {r : UInt32 × UInt32 × UInt32}
    (h : openRequest payload = some r) : payload.head? = some msgChannelOpen := by
  cases payload with
  | nil => cases h
  | cons type body =>
    rw [openRequest] at h
    split at h
    · cases h
    · rename_i ht
      rw [not_not.mp ht]
      rfl

theorem windowAdjust_head {payload : Bytes} {add : UInt32} (h : windowAdjust payload = some add) :
    payload.head? = some msgChannelWindowAdjust := by
  cases payload with
  | nil => cases h
  | cons type body =>
    rw [windowAdjust] at h
    split at h
    · cases h
    · rename_i ht
      rw [not_not.mp ht]
      rfl

theorem wantReply_head {payload : Bytes} {want : UInt8} (h : wantReply payload = some want) :
    payload.head? = some msgChannelRequest := by
  cases payload with
  | nil => cases h
  | cons type body =>
    rw [wantReply] at h
    split at h
    · cases h
    · rename_i ht
      rw [not_not.mp ht]
      rfl

theorem dataPayload_head {payload d : Bytes} (h : dataPayload payload = some d) :
    payload.head? = some msgChannelData := by
  cases payload with
  | nil => cases h
  | cons type body =>
    rw [dataPayload] at h
    split at h
    · cases h
    · rename_i ht
      rw [not_not.mp ht]
      rfl

theorem grant_of_phase {s : Session} (h : s.phase ≠ .run) (payload : Bytes) :
    grant s payload = 0 := if_pos h

/-- Only two messages grant window. -/
theorem grant_of_head {s : Session} {payload : Bytes}
    (ho : payload.head? ≠ some msgChannelOpen) (ha : payload.head? ≠ some msgChannelWindowAdjust) :
    grant s payload = 0 := by
  have hopen : openRequest payload = none :=
    Option.eq_none_iff_forall_ne_some.mpr fun r h ↦ ho (openRequest_head h)
  have hadjust : windowAdjust payload = none :=
    Option.eq_none_iff_forall_ne_some.mpr fun r h ↦ ha (windowAdjust_head h)
  rw [grant, hopen, hadjust]
  split
  · rfl
  · split <;> rfl

theorem inert_of_head {s : Session} {payload : Bytes} {t : UInt8} (h : payload.head? = some t)
    (ht : t ≠ msgDisconnect ∧ t ≠ msgChannelOpen ∧ t ≠ msgChannelWindowAdjust) :
    Inert s payload := by
  refine ⟨grant_of_head ?_ ?_, ?_⟩
  · rw [h]
    exact fun he ↦ ht.2.1 (Option.some.inj he)
  · rw [h]
    exact fun he ↦ ht.2.2 (Option.some.inj he)
  · rw [h]
    exact fun he ↦ ht.1 (Option.some.inj he)

theorem unasked_of_head {s : Session} {payload : Bytes} {t : UInt8} (h : payload.head? = some t)
    (ht : t ∉ [msgDisconnect, msgChannelOpen, msgChannelWindowAdjust, msgChannelRequest,
      msgChannelData]) : Unasked s payload := by
  simp only [List.mem_cons, List.not_mem_nil, or_false, not_or] at ht
  refine ⟨inert_of_head h ⟨ht.1, ht.2.1, ht.2.2.1⟩, fun _ ↦ ?_, fun _ _ ↦ ?_⟩
  · refine Option.eq_none_iff_forall_ne_some.mpr fun want hw ↦ ?_
    exact ht.2.2.2.1 (Option.some.inj (h.symm.trans (wantReply_head hw)))
  · refine Option.eq_none_iff_forall_ne_some.mpr fun d hd ↦ ?_
    exact ht.2.2.2.2 (Option.some.inj (h.symm.trans (dataPayload_head hd)))

variable {slot : ℤ}

/-! Key exchange. -/

/-- The computation draws random bytes and writes into four fields of the session. -/
theorem kexCompute_induct {R : World → World → Prop} (hrefl : ∀ w, R w w)
    (htrans : ∀ {a b c}, R a b → R b c → R a c) (hrandom : ∀ w n, R w (randomBytes w n).2)
    (hscratch : ∀ w (priv pub k blob : Session → Bytes), R w (w.modify fun s ↦
      { s with ephPriv := priv s, ephPub := pub s, sharedK := k s, ourKexBlob := blob s }))
    (w : World) : R w (kexCompute P w).1 := by
  have hpriv (w : World) (x : Bytes) : R w (w.modify fun s ↦ { s with ephPriv := x }) :=
    hscratch w (fun _ ↦ x) (·.ephPub) (·.sharedK) (·.ourKexBlob)
  have hpub (w : World) (x : Bytes) : R w (w.modify fun s ↦ { s with ephPub := x }) :=
    hscratch w (·.ephPriv) (fun _ ↦ x) (·.sharedK) (·.ourKexBlob)
  have hk (w : World) (x : Bytes) : R w (w.modify fun s ↦ { s with sharedK := x }) :=
    hscratch w (·.ephPriv) (·.ephPub) (fun _ ↦ x) (·.ourKexBlob)
  unfold kexCompute
  split
  · have hcoins := hrandom w 32
    generalize hw : (randomBytes w 32).2 = w₁ at hcoins
    have hdrawn := htrans (htrans hcoins (hrandom w₁ 32)) (hpriv _ (randomBytes w₁ 32).1)
    unfold kexComputePq
    simp only [hw]
    split
    · exact hrefl w
    split
    · exact hcoins
    rename_i ct mlSs _
    split
    · exact hdrawn
    rename_i pub _
    have hbase := htrans hdrawn (hpub _ pub)
    split
    · exact hbase
    rename_i xSs _
    have hshared := htrans hbase (hk _ (sha256 P (mlSs ++ xSs)))
    exact htrans hshared (hscratch _ (·.ephPriv) (·.ephPub) (·.sharedK) fun s ↦ ct ++ s.ephPub)
  · have hdrawn := htrans (hrandom w 32) (hpriv _ (randomBytes w 32).1)
    unfold kexComputeClassical
    simp only
    split
    · exact hdrawn
    rename_i pub _
    have hbase := htrans hdrawn (hpub _ pub)
    split
    · exact hbase
    · rename_i k _
      exact htrans hbase (hk _ k)

theorem kexCompute_steady (w : World) : Steady P w (kexCompute P w).1 :=
  kexCompute_induct P .refl .trans .random (fun w _ _ _ _ ↦ .modify w _ fun _ ↦ rfl) w

theorem kexEcdhReplyPayload_head (s : Session) (kBlob sig : Bytes) :
    (kexEcdhReplyPayload s kBlob sig).head? = some msgKexEcdhReply := by
  by_cases h : s.kexAlg = .mlkem768X25519 <;> simp [kexEcdhReplyPayload, putU8, h]

/-- The reply is sent exactly when an exchange hash was taken. -/
theorem sendKexEcdhReply_effect (w : World) :
    ((sendKexEcdhReply P w).2 = false ∧ Steady P w (sendKexEcdhReply P w).1) ∨
      ((sendKexEcdhReply P w).2 = true ∧
        ∃ w₁ hash, Steady P w w₁ ∧ Steady P (adoptHash w₁ hash) (sendKexEcdhReply P w).1) := by
  unfold sendKexEcdhReply
  split
  · exact .inl ⟨rfl, .refl w⟩
  rename_i seed hostPub _
  have hq := kexCompute_steady P w
  split
  · rename_i w₁ hk
    rw [hk] at hq
    exact .inl ⟨rfl, hq⟩
  rename_i w₁ hk
  rw [hk] at hq
  simp only [ed25519Sign]
  refine .inr ⟨trivial, w₁, computeExchangeHash P w₁.s (buildHostKeyBlob hostPub), hq, ?_⟩
  exact .send P (adoptHash w₁ _) (plain_of_head (kexEcdhReplyPayload_head _ _ _) (by decide))

section
variable {w : World}

theorem handleKexinit_effect {payload : Bytes} (ht : payload.head? = some msgKexinit)
    (hp : w.s.phase = .kexWaitKexinit ∨ w.s.phase = .run) :
    Effect P slot w payload (handleKexinit P w payload) := by
  have hi : Unasked w.s payload := unasked_of_head ht (by decide)
  unfold handleKexinit
  simp only
  split
  · exact .bye hi (.modify w (fun s ↦ { s with peerKexInit := payload }) fun _ ↦ rfl) _ _
  · rename_i alg hs
    exact .kexinit alg ht hp hs

theorem handleKexEcdhInit_effect {payload : Bytes} (body : Bytes)
    (ht : payload.head? = some msgKexEcdhInit) (hp : w.s.phase = .kexWaitEcdh) :
    Effect P slot w payload (handleKexEcdhInit P w body).1 := by
  have hi : Unasked w.s payload := unasked_of_head ht (by decide)
  unfold handleKexEcdhInit
  split
  · exact .bye hi (.refl w) _ _
  rename_i blob _ _
  have hstore : ∀ w₁, storeClientBlob w blob = .inl w₁ → Steady P w w₁ := by
    intro w₁ hw₁
    unfold storeClientBlob at hw₁
    split at hw₁
    · split at hw₁
      · cases hw₁
      · cases hw₁
        exact .modify w (fun s ↦ { s with peerKexBlob := blob }) fun _ ↦ rfl
    · split at hw₁
      · cases hw₁
      · cases hw₁
        exact .modify w (fun s ↦ { s with peerEphPub := blob }) fun _ ↦ rfl
  split
  · exact .bye hi (.refl w) _ _
  rename_i w₁ hw₁
  have hq := hstore w₁ hw₁
  have hreply := sendKexEcdhReply_effect P w₁
  split
  · rename_i w₂ hw₂
    rw [hw₂] at hreply
    obtain ⟨-, hq'⟩ | ⟨hf, -⟩ := hreply
    · exact .bye hi (hq.trans hq') _ _
    · cases hf
  · rename_i w₂ hw₂
    rw [hw₂] at hreply
    obtain ⟨hf, -⟩ | ⟨-, w₃, hash, hq₃, hq₄⟩ := hreply
    · cases hf
    · exact .exchange ht hp hash (hq.trans hq₃) (hq₄.trans (.send P w₂ (plain_of_head rfl (by decide))))

/-! Authentication. -/

theorem sendUserauthFailure_steady (w : World) (partialSuccess : Bool) :
    Steady P w (sendUserauthFailure P w partialSuccess) :=
  .send P w (plain_of_head rfl (by decide))

theorem sendUserauthPkOk_steady (w : World) (algStr pkBlob : Bytes) :
    Steady P w (sendUserauthPkOk P w algStr pkBlob) :=
  .send P w (plain_of_head rfl (by decide))

theorem handleServiceRequest_effect {payload : Bytes} (body : Bytes) (hi : Unasked w.s payload) :
    Effect P slot w payload (handleServiceRequest P w body).1 := by
  unfold handleServiceRequest
  split
  · exact .bye hi (.refl w) _ _
  split
  · exact .bye hi (.refl w) _ _
  · exact .steady hi (.send P w (plain_of_head rfl (by decide)))

end

theorem ed25519Blob_some {blob body : Bytes} {len : ℕ} (h : ed25519Blob blob len = some body) :
    ∃ rest, blob = lenPrefixed (ascii "ssh-ed25519") ++ lenPrefixed body ++ rest ∧
      body.length = len := by
  unfold ed25519Blob at h
  split at h
  · cases h
  rename_i inAlg v hv
  obtain ⟨hok, hrest, -⟩ := getString_some (viewInit_ok blob) hv
  split at h
  · cases h
  rename_i halg
  split at h
  · cases h
  rename_i body' v' hv'
  obtain ⟨-, hrest', -⟩ := getString_some hok hv'
  split at h
  · cases h
  rename_i hlen
  cases h
  refine ⟨v'.rest ++ blob.drop (blob.length % sizeMod), ?_, not_not.mp hlen⟩
  rw [← not_not.mp halg]
  calc blob = (viewInit blob).rest ++ blob.drop (blob.length % sizeMod) :=
        (rest_viewInit_append blob).symm
    _ = _ := by rw [hrest, hrest']; simp only [List.append_assoc]

theorem signedData_eq (sessionId user svc pkBlob : Bytes) :
    signedData sessionId user svc pkBlob =
      lenPrefixed sessionId ++ [50] ++ lenPrefixed user ++ lenPrefixed svc ++
        lenPrefixed (ascii "publickey") ++ [1] ++ lenPrefixed (ascii "ssh-ed25519") ++
        lenPrefixed pkBlob := by
  simp only [signedData, putString_eq, putCstring, putU8, msgUserauthRequest, List.nil_append]

/-- `v` is the cursor behind the method name of `payload`. -/
structure AtMethod (payload user svc method : Bytes) (v : View) : Prop where
  ok : v.Ok
  tail : ∃ rest, payload = msgUserauthRequest ::
    (lenPrefixed user ++ lenPrefixed svc ++ lenPrefixed method ++ (v.rest ++ rest))

section
variable {w w₁ : World} {payload user svc : Bytes} {v : View}

theorem userauthSignature_effect (hp : w.s.phase = .auth)
    (ht : payload.head? = some msgUserauthRequest) (hq : Steady P w w₁) {pkBlob pub : Bytes}
    (hj : ∀ sigBlob sig v', getString v = (some sigBlob, v') → ed25519Blob sigBlob 64 = some sig →
      ed25519Verify P pub (signedData w₁.s.sessionId user svc pkBlob) sig = true →
      ByPublickey P w.env w.obs w.s payload) :
    Effect P slot w payload (userauthSignature P w₁ v user svc pkBlob pub).1 := by
  have hi : Unasked w.s payload := unasked_of_head ht (by decide)
  unfold userauthSignature
  split
  · exact .bye hi hq _ _
  rename_i sigBlob v' hv'
  split
  · exact .steady hi (hq.trans (sendUserauthFailure_steady P w₁ false))
  rename_i sig hsig
  simp only [verifySignature]
  have hn : Steady P w (w₁.note (.verify pub (signedData w₁.s.sessionId user svc pkBlob) sig
      (ed25519Verify P pub (signedData w₁.s.sessionId user svc pkBlob) sig))) :=
    hq.trans (.note trivial)
  split
  · rename_i w₂ hv
    obtain ⟨-, rfl⟩ := Prod.mk.injEq .. ▸ hv
    exact .steady hi (hn.trans (sendUserauthFailure_steady P _ false))
  · rename_i w₂ hv
    obtain ⟨hok, rfl⟩ := Prod.mk.injEq .. ▸ hv
    refine .success hp ht (.inl (hj sigBlob sig v' hv' hsig hok)) (hn.trans (.send P _ ?_))
    exact plain_of_head rfl (by decide)

theorem userauthPublickey_effect (hp : w.s.phase = .auth)
    (ht : payload.head? = some msgUserauthRequest) (hq : Steady P w w₁)
    (ho : w₁.obs = w.obs) (hm : AtMethod payload user svc (ascii "publickey") v) :
    Effect P slot w payload (userauthPublickey P w₁ v user svc).1 := by
  have hi : Unasked w.s payload := unasked_of_head ht (by decide)
  obtain ⟨tail, hpay⟩ := hm.tail
  unfold userauthPublickey
  rcases hflag : getU8 v with ⟨flag, v₁⟩
  simp only
  split
  · exact .bye hi hq _ _
  rename_i algStr v₂ halg
  obtain ⟨hok₁, hrest₁⟩ := getU8_of_need hm.ok hflag (getString_bad halg)
  obtain ⟨hok₂, hrest₂, -⟩ := getString_some hok₁ halg
  split
  · exact .bye hi hq _ _
  rename_i pkBlob v₃ hpk
  obtain ⟨hok₃, hrest₃, -⟩ := getString_some hok₂ hpk
  split
  · exact .steady hi (hq.trans (sendUserauthFailure_steady P w₁ false))
  rename_i hname
  split
  · exact .steady hi (hq.trans (sendUserauthFailure_steady P w₁ false))
  rename_i pub hpub
  obtain ⟨pkRest, hpkBlob, hpubLen⟩ := ed25519Blob_some hpub
  simp only [authorizedPub]
  have hn : Steady P w (w₁.note (.authKey pub
      (authorizedPubMatches P (w₁.env.authorizedKeys w₁.obs) pub))) := hq.trans (.note trivial)
  split
  · rename_i w₂ ha
    obtain ⟨-, rfl⟩ := Prod.mk.injEq .. ▸ ha
    exact .steady hi (hn.trans (sendUserauthFailure_steady P _ false))
  rename_i w₂ ha
  obtain ⟨hauth, rfl⟩ := Prod.mk.injEq .. ▸ ha
  split
  · exact .steady hi (hn.trans (sendUserauthPkOk_steady P _ algStr pkBlob))
  rename_i hset
  refine userauthSignature_effect P hp ht hn fun sigBlob sig v₄ hsigBlob hsig hverify ↦ ?_
  obtain ⟨-, hrest₄, -⟩ := getString_some hok₃ hsigBlob
  obtain ⟨sigRest, hsigEq, hsigLen⟩ := ed25519Blob_some hsig
  rw [signedData_eq, hn.sessionId] at hverify
  rw [hq.env, ho] at hauth
  refine ⟨user, svc, pkBlob, sigBlob, pub, sig, flag, v₄.rest ++ tail, pkRest, sigRest, ?_, hset,
    hpkBlob, hpubLen, hsigEq, hsigLen, hauth, hverify⟩
  rw [hpay, hrest₁, hrest₂, hrest₃, hrest₄, not_not.mp hname]
  simp only [List.append_assoc, List.cons_append]

theorem userauthPassword_effect (hp : w.s.phase = .auth)
    (ht : payload.head? = some msgUserauthRequest) (hq : Steady P w w₁)
    (ho : w₁.obs = w.obs) (hm : AtMethod payload user svc (ascii "password") v) :
    Effect P slot w payload (userauthPassword P w₁ v).1 := by
  have hi : Unasked w.s payload := unasked_of_head ht (by decide)
  obtain ⟨tail, hpay⟩ := hm.tail
  unfold userauthPassword
  rcases hflag : getU8 v with ⟨flag, v₁⟩
  simp only
  split
  · exact .steady hi (hq.trans (sendUserauthFailure_steady P w₁ false))
  rename_i hchange
  split
  · exact .bye hi hq _ _
  rename_i pw v₂ hpw
  obtain ⟨hok₁, hrest₁⟩ := getU8_of_need hm.ok hflag (getString_bad hpw)
  obtain ⟨-, hrest₂, -⟩ := getString_some hok₁ hpw
  simp only [authLogin]
  have hn : Steady P w (w₁.note (.authLogin (cString pw) (ascii "admin")
      (w₁.env.authLogin w₁.obs (cString pw) (ascii "admin")))) := hq.trans (.note trivial)
  split
  · rename_i w₂ ha
    obtain ⟨hok, rfl⟩ := Prod.mk.injEq .. ▸ ha
    rw [hq.env, ho] at hok
    refine .success hp ht (.inr ⟨user, svc, pw, v₂.rest ++ tail, ?_, hok⟩) (hn.trans (.send P _ ?_))
    · rw [hpay, hrest₁, hrest₂, not_not.mp hchange]
      simp only [List.append_assoc, List.cons_append]
    · exact plain_of_head rfl (by decide)
  · rename_i w₂ ha
    obtain ⟨-, rfl⟩ := Prod.mk.injEq .. ▸ ha
    exact .steady hi (hn.trans (sendUserauthFailure_steady P _ false))

theorem handleUserauthRequest_effect (body : Bytes) (hp : w.s.phase = .auth) :
    Effect P slot w (msgUserauthRequest :: body) (handleUserauthRequest P w body).1 := by
  have hi : Unasked w.s (msgUserauthRequest :: body) := unasked_of_head rfl (by decide)
  unfold handleUserauthRequest
  split
  · exact .bye hi (.refl w) _ _
  rename_i user v₁ hu
  obtain ⟨hok₁, hrest₁, -⟩ := getString_some (viewInit_ok body) hu
  split
  · exact .bye hi (.refl w) _ _
  rename_i svc v₂ hs
  obtain ⟨hok₂, hrest₂, -⟩ := getString_some hok₁ hs
  split
  · exact .bye hi (.refl w) _ _
  rename_i method v₃ hmeth
  obtain ⟨hok₃, hrest₃, -⟩ := getString_some hok₂ hmeth
  have hq : Steady P w (w.modify fun s ↦ { s with user := user }) := .modify w _ fun _ ↦ rfl
  have hat : AtMethod (msgUserauthRequest :: body) user svc method v₃ := by
    refine ⟨hok₃, body.drop (body.length % sizeMod), ?_⟩
    conv_lhs => rw [← rest_viewInit_append body, hrest₁, hrest₂, hrest₃]
    simp only [List.append_assoc]
  simp only
  split
  · rename_i hpk
    exact userauthPublickey_effect P hp rfl hq rfl (hpk ▸ hat)
  split
  · rename_i hpw
    exact userauthPassword_effect P hp rfl hq rfl (hpw ▸ hat)
  · exact .steady hi (hq.trans (sendUserauthFailure_steady P _ false))

end

end Sshd.Server

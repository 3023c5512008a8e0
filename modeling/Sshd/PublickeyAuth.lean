import Sshd.Client.Steps
import Sshd.Keys.Authorize
import Sshd.Server.OutputDelivery

namespace Sshd

open Lib.Octets Wire Crypto Server

variable (P : Primitives)

/-! The client's publickey request, read by the server. -/

/-- `blob` is read to its last byte as the name of the algorithm and `inner`. -/
def ReadsBlob (blob inner : Bytes) : Prop :=
  ∃ v, takeStrings 2 (viewInit blob) = some ([ascii "ssh-ed25519", inner], v) ∧ v.rest = []

/-- `body` is read to its last byte as a signed publickey request. -/
def ReadsRequest (body user pkBlob sigBlob : Bytes) : Prop :=
  ∃ v₁ v₂ v₃,
    takeStrings 3 (viewInit body) =
        some ([user, ascii "ssh-connection", ascii "publickey"], v₁) ∧
      getU8 v₁ = (1, v₂) ∧
        takeStrings 3 v₂ = some ([ascii "ssh-ed25519", pkBlob, sigBlob], v₃) ∧ v₃.rest = []

/-- The blob of a public key or of a signature. -/
def ed25519String (inner : Bytes) : Bytes := putString (putCstring [] "ssh-ed25519") inner

theorem ed25519String_eq (inner : Bytes) :
    ed25519String inner = ([ascii "ssh-ed25519", inner].map lenPrefixed).flatten := by
  simp [ed25519String, putCstring, putString_eq]

theorem ed25519String_length (inner : Bytes) : (ed25519String inner).length = inner.length + 19 := by
  rw [ed25519String, putString_eq, putCstring, putString_eq]
  simp only [List.length_append, lenPrefixed_length, List.length_nil]
  have halg : (ascii "ssh-ed25519").length = 11 := by decide
  omega

theorem readsBlob_ed25519String {inner : Bytes} (h : inner.length < 2 ^ 16) :
    ReadsBlob (ed25519String inner) inner := by
  have hlen := ed25519String_length inner
  have hrest : (viewInit (ed25519String inner)).rest =
      ([ascii "ssh-ed25519", inner].map lenPrefixed).flatten ++ [] := by
    rw [List.append_nil, ← ed25519String_eq]
    apply rest_viewInit
    change (ed25519String inner).length < 2 ^ 32
    omega
  have hshort : ∀ x ∈ [ascii "ssh-ed25519", inner], x.length < 2 ^ 32 := by
    intro x hx
    rcases List.mem_pair.mp hx with rfl | rfl
    · decide
    · omega
  obtain ⟨v, ht, -, -, hv⟩ := takeStrings_of_rest (viewInit_ok _) rfl hshort hrest
  exact ⟨v, ht, hv⟩

theorem ed25519Blob_of_reads {blob inner : Bytes} (h : ReadsBlob blob inner) :
    ed25519Blob blob inner.length = some inner := by
  obtain ⟨v, ht, -⟩ := h
  obtain ⟨v₁, hg₁, ht₁⟩ := takeStrings_succ.mp ht
  obtain ⟨v₂, hg₂, -⟩ := takeStrings_succ.mp ht₁
  simp only [ed25519Blob, hg₁, hg₂, ne_eq, not_true_eq_false, if_false]

/-- The part of the request behind the message number. -/
def requestBody (user pkBlob sig : Bytes) : Bytes :=
  ([user, ascii "ssh-connection", ascii "publickey"].map lenPrefixed).flatten ++
    1 :: ([ascii "ssh-ed25519", pkBlob, ed25519String sig].map lenPrefixed).flatten

theorem publickeyRequest_eq (user pkBlob sig : Bytes) :
    Client.publickeyRequest user pkBlob sig = msgUserauthRequest :: requestBody user pkBlob sig := by
  simp [Client.publickeyRequest, Client.publickeyClaim, Client.userauthRequest, requestBody,
    ed25519String, putCstring, putString_eq, putU8, Client.msgUserauthRequest, msgUserauthRequest]

theorem reads_requestBody {user pkBlob sig : Bytes} (hu : user.length < 64)
    (hk : pkBlob.length = 51) (hs : sig.length = 64) :
    ReadsRequest (requestBody user pkBlob sig) user pkBlob (ed25519String sig) := by
  have hsig := ed25519String_length sig
  have hconn : (ascii "ssh-connection").length = 14 := by decide
  have hmethod : (ascii "publickey").length = 9 := by decide
  have halg : (ascii "ssh-ed25519").length = 11 := by decide
  have hlen : (requestBody user pkBlob sig).length < 2 ^ 32 := by
    simp only [requestBody, List.map_cons, List.map_nil, List.flatten_cons, List.flatten_nil,
      List.length_append, List.length_cons, List.length_nil, lenPrefixed_length]
    omega
  have hhead : ∀ x ∈ [user, ascii "ssh-connection", ascii "publickey"], x.length < 2 ^ 32 := by
    intro x hx
    simp only [List.mem_cons, List.not_mem_nil, or_false] at hx
    rcases hx with rfl | rfl | rfl <;> omega
  have htail : ∀ x ∈ [ascii "ssh-ed25519", pkBlob, ed25519String sig], x.length < 2 ^ 32 := by
    intro x hx
    simp only [List.mem_cons, List.not_mem_nil, or_false] at hx
    rcases hx with rfl | rfl | rfl <;> omega
  obtain ⟨v₁, ht₁, hv₁, hb₁, hr₁⟩ :=
    takeStrings_of_rest (viewInit_ok _) rfl hhead (rest_viewInit hlen)
  obtain ⟨v₂, hg, hv₂, hb₂, hr₂⟩ := getU8_of_rest hv₁ hb₁ hr₁
  obtain ⟨v₃, ht₃, -, -, hr₃⟩ :=
    takeStrings_of_rest hv₂ hb₂ htail (hr₂.trans (List.append_nil _).symm)
  exact ⟨v₁, v₂, v₃, ht₁, hg, ht₃, hr₃⟩

/-! The server's answer to a request that it has read. -/

/-- What the server does with a signed request for the key `pub`. -/
def publickeyAnswer (w : World) (user pkBlob pub sig : Bytes) : World :=
  let w := w.modify fun s ↦ { s with user := user }
  let r := authorizedPub P w pub
  if r.1 then
    let r := verifySignature P r.2 pub
      (signedData r.2.s.sessionId user (ascii "ssh-connection") pkBlob) sig
    if r.1 then sendUserauthSuccess P r.2 else sendUserauthFailure P r.2 false
  else sendUserauthFailure P r.2 false

theorem handleUserauthRequest_of_reads {body user pkBlob sigBlob pub sig : Bytes}
    (h : ReadsRequest body user pkBlob sigBlob) (hpub : ReadsBlob pkBlob pub)
    (hpubLen : pub.length = 32) (hsig : ReadsBlob sigBlob sig) (hsigLen : sig.length = 64)
    (w : World) :
    handleUserauthRequest P w body = (publickeyAnswer P w user pkBlob pub sig, true) := by
  obtain ⟨v₁, v₂, v₃, ht₁, hflag, ht₂, -⟩ := h
  obtain ⟨u₁, hg₁, ht₁⟩ := takeStrings_succ.mp ht₁
  obtain ⟨u₂, hg₂, ht₁⟩ := takeStrings_succ.mp ht₁
  obtain ⟨u₃, hg₃, ht₁⟩ := takeStrings_succ.mp ht₁
  cases ht₁
  obtain ⟨u₄, hg₄, ht₂⟩ := takeStrings_succ.mp ht₂
  obtain ⟨u₅, hg₅, ht₂⟩ := takeStrings_succ.mp ht₂
  obtain ⟨u₆, hg₆, -⟩ := takeStrings_succ.mp ht₂
  have hpk := ed25519Blob_of_reads hpub
  have hsb := ed25519Blob_of_reads hsig
  rw [hpubLen] at hpk
  rw [hsigLen] at hsb
  simp only [handleUserauthRequest, hg₁, hg₂, hg₃, if_true, userauthPublickey, hflag, hg₄, hg₅, ne_eq,
    not_true_eq_false, if_false, hpk, publickeyAnswer]
  rcases authorizedPub P (w.modify fun s ↦ { s with user := user }) pub with ⟨_ | _, w₁⟩
  · rfl
  · simp only [if_true, userauthSignature, hg₆, hsb]
    rcases verifySignature P w₁ pub
      (signedData w₁.s.sessionId user (ascii "ssh-connection") pkBlob) sig with ⟨_ | _, w₂⟩
    · rfl
    · rfl

/-- The signatures that were verified: key, message and signature. -/
def checkedSignatures (obs : List Obs) : List (Bytes × Bytes × Bytes) :=
  obs.filterMap fun o ↦ match o with
    | .verify pub msg sig _ => some (pub, msg, sig)
    | _ => none

theorem checkedSignatures_append (obs os : List Obs) :
    checkedSignatures (obs ++ os) = checkedSignatures obs ++ checkedSignatures os :=
  List.filterMap_append

theorem checkedSignatures_send (w : World) (payload : Bytes) :
    checkedSignatures (sendPacket P w payload).obs = checkedSignatures w.obs :=
  filterMap_send (fun _ ↦ rfl) (fun _ ↦ rfl) (fun _ _ _ _ ↦ rfl) w payload

/-- A key's own signatures verify. -/
def VerifiesOwn : Prop :=
  ∀ seed msg pub sig, ed25519PubFromSeed P seed = some pub → ed25519Sign P seed msg = some sig →
    ed25519Verify P pub msg sig = true

def userauthFailure : Bytes := putU8 (putCstring (putU8 [] msgUserauthFailure) "publickey,password") 0

variable {P} {w : World}

theorem dispatch_userauth (hw : w.s.phase = .auth) (body : Bytes) (slot : ℤ) :
    dispatchPacket P w (msgUserauthRequest :: body) slot =
      handleUserauthRequest P (w.note (.dispatch w.s (msgUserauthRequest :: body))) body := by
  have hphase : ¬(w.note (.dispatch w.s (msgUserauthRequest :: body))).s.phase ≠ .auth :=
    fun hne ↦ hne hw
  change dispatchMessage P (w.note _) msgUserauthRequest _ body slot = _
  rw [dispatchMessage, if_neg (by decide), if_neg (by decide), if_neg (by decide), if_neg (by decide),
    if_neg (by decide), if_neg (by decide), if_pos rfl, if_neg hphase]

/-- The client signs in the words that the server checks. -/
theorem userauthSigned_eq (sessionId user pkBlob : Bytes) :
    Client.userauthSigned sessionId user pkBlob =
      signedData sessionId user (ascii "ssh-connection") pkBlob := by
  simp [Client.userauthSigned, Client.publickeyClaim, Client.userauthRequest, signedData,
    putCstring, putString_eq, putU8, Client.msgUserauthRequest, msgUserauthRequest]

theorem sendUserauthSuccess_spec (hw : CanSend w.s) :
    sentPayloads (sendUserauthSuccess P w).obs = sentPayloads w.obs ++ [[msgUserauthSuccess]] ∧
      checkedSignatures (sendUserauthSuccess P w).obs = checkedSignatures w.obs ∧
        (sendUserauthSuccess P w).s.phase = .run :=
  ⟨sentPayloads_send hw _, checkedSignatures_send P w _, rfl⟩

theorem sendUserauthFailure_spec (hw : CanSend w.s) :
    sentPayloads (sendUserauthFailure P w false).obs = sentPayloads w.obs ++ [userauthFailure] ∧
      checkedSignatures (sendUserauthFailure P w false).obs = checkedSignatures w.obs ∧
        (sendUserauthFailure P w false).s.phase = w.s.phase := by
  refine ⟨sentPayloads_send hw _, checkedSignatures_send P w _, ?_⟩
  rw [sendUserauthFailure, sendPacket_s]

theorem publickeyAnswer_spec (hw : CanSend w.s) {user pkBlob pub sig : Bytes}
    (hverify : ed25519Verify P pub
      (signedData w.s.sessionId user (ascii "ssh-connection") pkBlob) sig = true) :
    let ok := authorizedPubMatches P (w.env.authorizedKeys w.obs) pub
    let answered := publickeyAnswer P w user pkBlob pub sig
    sentPayloads answered.obs =
        sentPayloads w.obs ++ [if ok then [msgUserauthSuccess] else userauthFailure] ∧
      checkedSignatures answered.obs = checkedSignatures w.obs ++
          (if ok then [(pub, signedData w.s.sessionId user (ascii "ssh-connection") pkBlob, sig)]
            else []) ∧
        answered.s.phase = if ok then .run else w.s.phase := by
  intro ok answered
  let w₁ := (w.modify fun s ↦ { s with user := user }).note (.authKey pub ok)
  have hw₁ : CanSend w₁.s := hw
  have hsent₁ : sentPayloads w₁.obs = sentPayloads w.obs :=
    (sentPayloads_append w.obs _).trans (List.append_nil _)
  have hchecked₁ : checkedSignatures w₁.obs = checkedSignatures w.obs :=
    (checkedSignatures_append w.obs _).trans (List.append_nil _)
  cases hok : ok with
  | false =>
    have hno : ¬ok = true := by rw [hok]; exact Bool.false_ne_true
    have hans : answered = sendUserauthFailure P w₁ false := if_neg hno
    obtain ⟨hsent, hchecked, hphase⟩ := sendUserauthFailure_spec (P := P) hw₁
    rw [hans, hsent, hchecked, hphase, hsent₁, hchecked₁]
    exact ⟨rfl, (List.append_nil _).symm, rfl⟩
  | true =>
    let signed := signedData w.s.sessionId user (ascii "ssh-connection") pkBlob
    let w₂ := w₁.note (.verify pub signed sig true)
    have hans : answered = sendUserauthSuccess P w₂ := by
      have hthen : answered = if (verifySignature P w₁ pub signed sig).1 then
          sendUserauthSuccess P (verifySignature P w₁ pub signed sig).2 else
          sendUserauthFailure P (verifySignature P w₁ pub signed sig).2 false := if_pos hok
      have hverified : verifySignature P w₁ pub signed sig = (true, w₂) := by
        simp only [verifySignature, hverify, signed, w₂]
      rw [hthen, hverified]
      rfl
    obtain ⟨hsent, hchecked, hphase⟩ := sendUserauthSuccess_spec (P := P) (w := w₂) hw₁
    have hsent₂ : sentPayloads w₂.obs = sentPayloads w₁.obs :=
      (sentPayloads_append w₁.obs _).trans (List.append_nil _)
    have hchecked₂ : checkedSignatures w₂.obs = checkedSignatures w₁.obs ++ [(pub, signed, sig)] :=
      checkedSignatures_append w₁.obs _
    rw [hans, hsent, hchecked, hphase, hsent₂, hchecked₂, hsent₁, hchecked₁]
    exact ⟨rfl, rfl, rfl⟩

/-- The request that the client makes with its key is read to its end by a
server with the same session id, which checks the very bytes that were signed
and lets the client in exactly if the key is authorized. -/
theorem publickey_login (hverify : VerifiesOwn P) {c : Client.World} (htry : c.job.tryPubkey = true)
    (huser : c.job.user.length < 64) (hauth : w.s.phase = .auth) (htcp : 0 ≤ w.s.tcp)
    (hid : w.s.sessionId = c.cs.sessionId) (slot : ℤ) :
    ∃ pub sig,
      let pkBlob := Client.pubkeyBlob pub
      let signed := Client.userauthSigned c.cs.sessionId c.job.user pkBlob
      let payload := Client.publickeyRequest c.job.user pkBlob sig
      let ok := authorizedPubMatches P
        (w.env.authorizedKeys (w.obs ++ [.dispatch w.s payload])) pub
      let answer := dispatchPacket P w payload slot
      ed25519PubFromSeed P c.job.seed = some pub ∧
        ed25519Sign P c.job.seed signed = some sig ∧
        Client.authPublickey P c = (Client.sendPacket P c payload).goto .publickey ∧
        (∃ sigBlob, ReadsRequest payload.tail c.job.user pkBlob sigBlob ∧ ReadsBlob pkBlob pub ∧
          ReadsBlob sigBlob sig) ∧
        answer.2 = true ∧
        checkedSignatures answer.1.obs =
          checkedSignatures w.obs ++ (if ok then [(pub, signed, sig)] else []) ∧
        sentPayloads answer.1.obs =
          sentPayloads w.obs ++ [if ok then [msgUserauthSuccess] else userauthFailure] ∧
        answer.1.s.phase = if ok then .run else .auth := by
  let pair := P.orlpCreateKeypair c.job.seed
  let pub := pair.1.toList
  let pkBlob := Client.pubkeyBlob pub
  let signed := Client.userauthSigned c.cs.sessionId c.job.user pkBlob
  let sig := (P.orlpSign signed pub pair.2.toList).toList
  have hpub : pub.length = 32 := pair.1.length_toList
  have hsig : sig.length = 64 := Vector.length_toList
  have hkey : pkBlob.length = 51 := (ed25519String_length pub).trans (by rw [hpub])
  have hreq : ReadsRequest (requestBody c.job.user pkBlob sig) c.job.user pkBlob
      (ed25519String sig) := reads_requestBody huser hkey hsig
  have hkeyBlob : ReadsBlob pkBlob pub := readsBlob_ed25519String (by omega)
  have hsigBlob : ReadsBlob (ed25519String sig) sig := readsBlob_ed25519String (by omega)
  refine ⟨pub, sig, ?_⟩
  intro pkBlob signed payload ok answer
  have hpay : payload = msgUserauthRequest :: requestBody c.job.user pkBlob sig :=
    publickeyRequest_eq c.job.user pkBlob sig
  let w₀ := w.note (.dispatch w.s payload)
  have hans : answer = (publickeyAnswer P w₀ c.job.user pkBlob pub sig, true) := by
    change dispatchPacket P w payload slot = (publickeyAnswer P (w.note (.dispatch w.s payload)) _ _ _ _, _)
    rw [hpay, dispatch_userauth hauth]
    exact handleUserauthRequest_of_reads P hreq hkeyBlob hpub hsigBlob hsig _
  have hsigned : signed = signedData w₀.s.sessionId c.job.user (ascii "ssh-connection") pkBlob := by
    change Client.userauthSigned _ _ _ = signedData w.s.sessionId _ _ _
    rw [hid, userauthSigned_eq]
  have hgood : ed25519Verify P pub signed sig = true := hverify c.job.seed signed pub sig rfl rfl
  have hcan : CanSend w₀.s := ⟨by change w.s.phase ≠ .closed; rw [hauth]; decide, htcp⟩
  rw [hsigned] at hgood
  obtain ⟨hsent, hchecked, hphase⟩ := publickeyAnswer_spec hcan hgood
  have hsent₀ : sentPayloads w₀.obs = sentPayloads w.obs :=
    (sentPayloads_append w.obs _).trans (List.append_nil _)
  have hchecked₀ : checkedSignatures w₀.obs = checkedSignatures w.obs :=
    (checkedSignatures_append w.obs _).trans (List.append_nil _)
  refine ⟨rfl, rfl, ?_, ⟨ed25519String sig, ?_, hkeyBlob, hsigBlob⟩, ?_, ?_, ?_, ?_⟩
  · exact if_pos htry
  · rw [hpay]
    exact hreq
  · rw [hans]
  · rw [hans, hchecked, hchecked₀, ← hsigned]
    rfl
  · rw [hans, hsent, hsent₀]
    rfl
  · rw [hans, hphase]
    change (if ok = true then _ else w.s.phase) = _
    rw [hauth]

theorem decoding_verifies : VerifiesOwn Keys.decoding := by
  intro seed msg pub sig hpub hsig
  cases hpub
  cases hsig
  exact decide_eq_true rfl

/-- A client whose seed is all zeros. -/
def zeroSeedClient : Client.World :=
  Client.runSession Client.sampleEnv
    { Client.sampleJob with tryPubkey := true, seed := List.replicate 32 0 } []

/-- A server that waits for authentication and knows that client's key. -/
def zeroKeyServer : World :=
  let line := ascii "ssh-ed25519 AAAAC3NzaC1lZDI1NTE5AAAAI" ++ List.replicate 43 65
  (accepted 0 { sampleEnv with authorizedKeys := fun _ ↦ [line] } 3).modify fun s ↦
    { s with phase := .auth }

theorem publickey_login_zero :
    ∃ pub sig,
      ed25519PubFromSeed Keys.decoding (List.replicate 32 0) = some pub ∧
        (dispatchPacket Keys.decoding zeroKeyServer
          (Client.publickeyRequest (ascii "root") (Client.pubkeyBlob pub) sig) 0).1.s.phase = .run := by
  obtain ⟨pub, sig, hpub, -, -, -, -, -, -, hphase⟩ :=
    publickey_login decoding_verifies (c := zeroSeedClient) (w := zeroKeyServer) rfl (by decide) rfl
      (by decide) rfl 0
  refine ⟨pub, sig, hpub, hphase.trans (if_pos ?_)⟩
  cases hpub
  have hmatch : authorizedPubMatches Keys.decoding (zeroKeyServer.env.authorizedKeys [])
      (Keys.decoding.orlpCreateKeypair (List.replicate 32 0)).1.toList = true := by
    decide +kernel
  exact hmatch

end Sshd

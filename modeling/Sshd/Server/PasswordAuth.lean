import Sshd.Server.AuthSafety

namespace Sshd.Server

open Lib.Octets Wire Crypto

variable (P : Primitives)

/-! The password request. -/

/-- `body` is read as a password request without a change of the password. -/
def ReadsPassword (body pw : Bytes) : Prop :=
  ∃ user svc v₁ v₂ v₃, takeStrings 3 (viewInit body) = some ([user, svc, ascii "password"], v₁) ∧
    getU8 v₁ = (0, v₂) ∧ getString v₂ = (some pw, v₃)

/-- `authLogin` takes the one password `r` for the realm. -/
def RealmPassword (env : Env) (r : Bytes) : Prop :=
  ∀ obs c, env.authLogin obs c (ascii "admin") = true ↔ c = r

theorem sendPacket_phase (w : World) (payload : Bytes) :
    (sendPacket P w payload).s.phase = w.s.phase := by
  rw [sendPacket_s]

/-- The request is judged by what stands before the first NUL. -/
theorem handleUserauthRequest_password {body pw : Bytes} (h : ReadsPassword body pw) (w : World) :
    (handleUserauthRequest P w body).1.s.phase =
      if w.env.authLogin w.obs (cString pw) (ascii "admin") then .run else w.s.phase := by
  obtain ⟨user, svc, v₁, v₂, v₃, ht, hflag, hpw⟩ := h
  obtain ⟨u₁, hg₁, ht⟩ := takeStrings_succ.mp ht
  obtain ⟨u₂, hg₂, ht⟩ := takeStrings_succ.mp ht
  obtain ⟨u₃, hg₃, ht⟩ := takeStrings_succ.mp ht
  cases ht
  have hmethod : ascii "password" ≠ ascii "publickey" := by decide
  simp only [handleUserauthRequest, hg₁, hg₂, hg₃, if_neg hmethod, if_true, userauthPassword, hflag,
    ne_eq, not_true_eq_false, if_false, hpw, authLogin, modify_env, modify_obs]
  cases w.env.authLogin w.obs (cString pw) (ascii "admin")
  · exact sendPacket_phase P _ _
  · rfl

/-- Whole passwords are compared exactly when none that holds a NUL begins with
the right one. -/
theorem password_whole_iff {w : World} {r body pw : Bytes} (hphase : w.s.phase = .auth)
    (hr : 0 ∉ r) (henv : RealmPassword w.env r) (hb : ReadsPassword body pw) (slot : ℤ) :
    ((dispatchPacket P w (msgUserauthRequest :: body) slot).1.s.phase = .run ↔ pw = r) ↔
      0 ∉ pw ∨ cString pw ≠ r := by
  have hnote : (w.note (.dispatch w.s (msgUserauthRequest :: body))).s.phase = .auth := hphase
  have hphase' : (dispatchPacket P w (msgUserauthRequest :: body) slot).1.s.phase =
      if w.env.authLogin (w.obs ++ [.dispatch w.s (msgUserauthRequest :: body)]) (cString pw)
        (ascii "admin") then .run else .auth := by
    rw [← hnote, ← note_obs, ← note_env, ← handleUserauthRequest_password P hb]
    simp only [dispatchPacket, dispatchMessage, hnote]
    rfl
  have hrun : (dispatchPacket P w (msgUserauthRequest :: body) slot).1.s.phase = .run ↔
      cString pw = r := by
    rw [hphase', ← henv (w.obs ++ [.dispatch w.s (msgUserauthRequest :: body)]) (cString pw)]
    split
    · rename_i h
      exact iff_of_true rfl h
    · rename_i h
      exact iff_of_false nofun h
  rw [hrun]
  by_cases h0 : 0 ∈ pw
  · have hne : pw ≠ r := fun h ↦ hr (h ▸ h0)
    simp [h0, hne]
  · simp [h0, cString_eq_self h0]

/-! A session that waits for its client to log in. -/

def loginWorld : World :=
  runFrom standIn 0 (accepted 0 sampleEnv 3) [.tcpArrive clientHello, .tcpRecv]

/-- A password request behind its message number. -/
def passwordBody (pw : Bytes) : Bytes :=
  ([ascii "root", ascii "ssh-connection", ascii "password"].map lenPrefixed).flatten ++
    0 :: lenPrefixed pw

theorem reads_passwordBody {pw : Bytes} (h : pw.length < 2 ^ 16) :
    ReadsPassword (passwordBody pw) pw := by
  have hlen : (passwordBody pw).length < 2 ^ 32 := by
    have hroot : (ascii "root").length = 4 := by decide
    have hconn : (ascii "ssh-connection").length = 14 := by decide
    have hmethod : (ascii "password").length = 8 := by decide
    simp only [passwordBody, List.map_cons, List.map_nil, List.flatten_cons, List.flatten_nil,
      List.length_append, List.length_cons, List.length_nil, lenPrefixed_length]
    omega
  have hhead : ∀ x ∈ [ascii "root", ascii "ssh-connection", ascii "password"],
      x.length < 2 ^ 32 := by
    decide
  obtain ⟨v₁, ht, hv₁, hb₁, hr₁⟩ :=
    takeStrings_of_rest (viewInit_ok _) rfl hhead (rest_viewInit hlen)
  obtain ⟨v₂, hg, hv₂, hb₂, hr₂⟩ := getU8_of_rest hv₁ hb₁ hr₁
  obtain ⟨v₃, hs, -⟩ := getString_of_rest hv₂ hb₂ (by omega) (hr₂.trans (List.append_nil _).symm)
  exact ⟨_, _, v₁, v₂, v₃, ht, hg, hs⟩

theorem realmPassword_loginWorld : RealmPassword loginWorld.env (ascii "secret") := by
  have h : AuthInv standIn sampleEnv loginWorld :=
    run_induction standIn 0 _ (fun _ _ h hm ↦ h.step hm) (authInv_accepted 0 3) _
  rw [h.answers]
  exact fun _ _ ↦ decide_eq_true_iff

theorem password_whole_iff_secret :
    ((dispatchPacket standIn loginWorld (msgUserauthRequest :: passwordBody (ascii "secret")) 0).1.s.phase =
        .run ↔ ascii "secret" = ascii "secret") ↔
      0 ∉ ascii "secret" ∨ cString (ascii "secret") ≠ ascii "secret" :=
  password_whole_iff standIn (by decide +kernel) (by decide) realmPassword_loginWorld
    (reads_passwordBody (by decide)) 0

/-- A longer password whose front is the right one, up to a NUL, logs in. -/
theorem password_cut_at_nul :
    let pw := ascii "secret" ++ [0] ++ ascii "x"
    loginWorld.s.phase = .auth ∧ RealmPassword loginWorld.env (ascii "secret") ∧
      ReadsPassword (passwordBody pw) pw ∧ pw ≠ ascii "secret" ∧
      (dispatchPacket standIn loginWorld (msgUserauthRequest :: passwordBody pw) 0).1.s.phase =
        .run := by
  refine ⟨by decide +kernel, realmPassword_loginWorld, reads_passwordBody (by decide), by decide, ?_⟩
  decide +kernel

end Sshd.Server

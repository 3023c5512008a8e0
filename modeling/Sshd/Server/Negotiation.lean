import Sshd.Lib.Preference
import Sshd.Server.OutputDelivery

namespace Sshd.Server

open Lib.Octets Lib.Preference Wire Crypto

/-! Name-lists. -/

/-- The names on a comma-separated list. -/
def names (csv : Bytes) : List Bytes := csv.splitOn 44

theorem names_cons {csv rest : Bytes} (h : csv = csv.takeWhile (· ≠ 44) ++ 44 :: rest) :
    names csv = csv.takeWhile (· ≠ 44) :: names rest := by
  have hno : ∀ c ∈ csv.takeWhile (· ≠ 44), (c == 44) = false := by
    intro c hc
    simpa using ne_of_mem_takeWhile hc
  calc names csv = (csv.takeWhile (· ≠ 44) ++ 44 :: rest).splitOnP (· == 44) := by
        rw [← h]
        rfl
    _ = _ := List.splitOnP_append_cons_of_forall_mem hno 44 rfl rest

theorem names_single {csv : Bytes} (h : 44 ∉ csv) : names csv = [csv] := by
  apply List.splitOnP_eq_singleton
  intro c hc
  have hne : c ≠ 44 := fun he ↦ h (he ▸ hc)
  simpa using hne

theorem nameInCsvFrom_iff {needle : Bytes} (hn : needle ≠ []) {fuel : ℕ} {csv : Bytes}
    (hf : csv.length ≤ fuel) : nameInCsvFrom needle fuel csv = true ↔ needle ∈ names csv := by
  have hnil : ∀ n, nameInCsvFrom needle n [] = false := by
    intro n
    cases n <;> rfl
  have hnone : needle ∉ names [] := fun h ↦ hn (List.mem_singleton.mp h)
  induction fuel generalizing csv with
  | zero =>
    rw [List.length_eq_zero_iff.mp (Nat.le_zero.mp hf), hnil]
    simpa using hnone
  | succ fuel ih =>
    rcases eq_or_ne csv [] with rfl | hcsv
    · rw [hnil]
      simpa using hnone
    rw [nameInCsvFrom, if_neg hcsv]
    by_cases hcomma : 44 ∈ csv
    · obtain ⟨rest, hrest⟩ := split_at_first hcomma
      have hdrop : csv.drop ((csv.takeWhile (· ≠ 44)).length + 1) = rest := by
        have happ : (csv.takeWhile (· ≠ 44) ++ 44 :: rest).drop
            ((csv.takeWhile (· ≠ 44)).length + 1) = rest := by
          rw [← List.drop_drop, List.drop_left, List.drop_one, List.tail_cons]
        rwa [← hrest] at happ
      have hlen : rest.length ≤ fuel := by
        rw [hrest, List.length_append, List.length_cons] at hf
        omega
      dsimp only
      rw [names_cons hrest, List.mem_cons, hdrop]
      by_cases hfield : csv.takeWhile (· ≠ 44) = needle
      · rw [if_pos hfield]
        exact ⟨fun _ ↦ .inl hfield.symm, fun _ ↦ rfl⟩
      · rw [if_neg hfield, or_iff_right (Ne.symm hfield)]
        exact ih hlen
    · have hall : csv.takeWhile (· ≠ 44) = csv := by
        apply List.takeWhile_eq_self_iff.mpr
        intro c hc
        have hne : c ≠ 44 := fun he ↦ hcomma (he ▸ hc)
        simpa using hne
      dsimp only
      rw [names_single hcomma, List.mem_singleton, hall, List.drop_eq_nil_of_le (by omega), hnil]
      by_cases hfield : csv = needle
      · simp [hfield]
      · simp [hfield, Ne.symm hfield]

theorem nameInCsv_iff {needle : String} (hn : ascii needle ≠ []) (csv : Bytes) :
    nameInCsv needle csv = true ↔ ascii needle ∈ names csv := nameInCsvFrom_iff hn le_rfl

/-! KEXINIT payloads. -/

/-- A KEXINIT with these name-lists and this `first_kex_packet_follows`. -/
def kexinitOf (cookie : Bytes) (lists : List Bytes) (follows : UInt8) : Bytes :=
  msgKexinit :: cookie ++ ((lists.map lenPrefixed).flatten ++ follows :: be32 0)

/-- What the server's own KEXINIT offers, list by list. -/
def ourLists : List Bytes :=
  [ascii ourKexNames, ascii "ssh-ed25519", ascii "chacha20-poly1305@openssh.com",
    ascii "chacha20-poly1305@openssh.com", [], [], ascii "none", ascii "none", [], []]

/-- `payload` can be read to the end as a KEXINIT with these lists and this flag. -/
def Proposes (payload : Bytes) (lists : List Bytes) (follows : UInt8) : Prop :=
  ∃ v v', takeStrings 10 (viewInit (payload.drop 17)) = some (lists, v) ∧
    getU8 v = (follows, v') ∧ (getU32 v').2.bad = false

theorem Proposes.unique {payload : Bytes} {lists lists' : List Bytes} {follows follows' : UInt8}
    (h : Proposes payload lists follows) (h' : Proposes payload lists' follows') :
    lists = lists' ∧ follows = follows' := by
  obtain ⟨v, u, hv, hu, -⟩ := h
  obtain ⟨v', u', hv', hu', -⟩ := h'
  rw [hv] at hv'
  cases hv'
  rw [hu] at hu'
  cases hu'
  exact ⟨rfl, rfl⟩

theorem kexinitOf_proposes {cookie : Bytes} {lists : List Bytes} {follows : UInt8}
    (hc : cookie.length = 16) (hl : lists.length = 10)
    (hsize : (kexinitOf cookie lists follows).length < 2 ^ 32) :
    Proposes (kexinitOf cookie lists follows) lists follows := by
  have hdrop : (kexinitOf cookie lists follows).drop 17 =
      (lists.map lenPrefixed).flatten ++ follows :: be32 0 := by
    rw [kexinitOf, List.cons_append, List.drop_succ_cons, ← hc, List.drop_left]
  have hlen : ((lists.map lenPrefixed).flatten ++ follows :: be32 0).length < 2 ^ 32 := by
    rw [← hdrop, List.length_drop]
    omega
  have hshort : ∀ x ∈ lists, x.length < 2 ^ 32 := by
    intro x hx
    have hle := List.Sublist.length_le
      (List.sublist_flatten_of_mem (List.mem_map_of_mem (f := lenPrefixed) hx))
    rw [lenPrefixed_length] at hle
    rw [List.length_append] at hlen
    omega
  obtain ⟨v, ht, hv, hb, hr⟩ :=
    takeStrings_of_rest (viewInit_ok _) rfl hshort (rest_viewInit hlen)
  obtain ⟨v', hg, hv', hb', hr'⟩ := getU8_of_rest hv hb hr
  obtain ⟨u, hu, -, hbu, -⟩ :=
    getU32_of_rest hv' hb' (n := 0) (by decide) (hr'.trans (List.append_nil _).symm)
  rw [hl] at ht
  rw [← hdrop] at ht
  exact ⟨v, v', ht, hg, by rw [hu]; exact hbu⟩

/-! The choice of the key exchange. -/

def mlkemName : Bytes := ascii "mlkem768x25519-sha256"
def curveName : Bytes := ascii "curve25519-sha256"
def libsshName : Bytes := ascii "curve25519-sha256@libssh.org"

/-- The server's names, in its order. -/
def ourNames : List Bytes := names (ascii ourKexNames)

theorem ourNames_eq : ourNames = [mlkemName, curveName, libsshName] := by decide +kernel

/-- The method that a name stands for. -/
def kexAlgOf (name : Bytes) : Option KexAlg :=
  if name = mlkemName then some .mlkem768X25519
  else if name = curveName ∨ name = libsshName then some .curve25519Sha256 else none

/-- The first of the client's names that the server has too decides. -/
def rfcChoice (list : Bytes) : Option KexAlg := (firstCommon (names list) ourNames).bind kexAlgOf

/-- The first name-list of a KEXINIT, where it can be read. -/
def kexList (payload : Bytes) : Option Bytes :=
  if payload.length < 17 + 4 then none else (getString (viewInit (payload.drop 17))).1

theorem selectKexAlg_eq {payload list : Bytes} (h : kexList payload = some list) :
    selectKexAlg payload = (firstCommon ourNames (names list)).bind kexAlgOf := by
  have hm : nameInCsv "mlkem768x25519-sha256" list = true ↔ mlkemName ∈ names list :=
    nameInCsv_iff (by decide) list
  have hc : nameInCsv "curve25519-sha256" list = true ↔ curveName ∈ names list :=
    nameInCsv_iff (by decide) list
  have hl : nameInCsv "curve25519-sha256@libssh.org" list = true ↔ libsshName ∈ names list :=
    nameInCsv_iff (by decide) list
  have hsize : ¬payload.length < 17 + 4 := by
    intro hlt
    rw [kexList, if_pos hlt] at h
    cases h
  rw [kexList, if_neg hsize] at h
  rw [selectKexAlg, if_neg hsize]
  rcases hg : getString (viewInit (payload.drop 17)) with ⟨_ | list', v⟩
  · rw [hg] at h
    cases h
  · rw [hg] at h
    cases h
    simp only [hm, hc, hl, Bool.or_eq_true, firstCommon, ourNames_eq]
    by_cases hmem : mlkemName ∈ names list
    · rw [if_pos hmem, List.find?_cons_of_pos (by simpa using hmem)]
      rfl
    · rw [if_neg hmem, List.find?_cons_of_neg (by simpa using hmem)]
      by_cases hcurve : curveName ∈ names list
      · rw [if_pos (.inl hcurve), List.find?_cons_of_pos (by simpa using hcurve)]
        decide
      · rw [List.find?_cons_of_neg (by simpa using hcurve)]
        by_cases hlib : libsshName ∈ names list
        · rw [if_pos (.inr hlib), List.find?_cons_of_pos (by simpa using hlib)]
          decide
        · rw [if_neg (by simp [hcurve, hlib]), List.find?_cons_of_neg (by simpa using hlib)]
          rfl

theorem selectKexAlg_none {payload : Bytes} (h : kexList payload = none) :
    selectKexAlg payload = none := by
  rw [selectKexAlg]
  by_cases hsize : payload.length < 17 + 4
  · rw [if_pos hsize]
  · rw [if_neg hsize]
    rw [kexList, if_neg hsize] at h
    rcases hg : getString (viewInit (payload.drop 17)) with ⟨_ | list, v⟩
    · rfl
    · rw [hg] at h
      cases h

theorem kexAlgOf_isSome {name : Bytes} (h : name ∈ ourNames) : (kexAlgOf name).isSome := by
  rw [ourNames_eq] at h
  simp only [List.mem_cons, List.not_mem_nil, or_false] at h
  rcases h with rfl | rfl | rfl <;> decide

/-- Only one name stands for the hybrid method. -/
theorem kexAlgOf_mlkem {name : Bytes} : kexAlgOf name = some .mlkem768X25519 ↔ name = mlkemName := by
  constructor
  · intro h
    by_contra hne
    rw [kexAlgOf, if_neg hne] at h
    split at h <;> cases h
  · rintro rfl
    rfl

theorem kexAlgOf_classical {name : Bytes} (h : name ∈ ourNames) (hne : name ≠ mlkemName) :
    kexAlgOf name = some .curve25519Sha256 := by
  rw [ourNames_eq] at h
  rw [kexAlgOf, if_neg hne, if_pos]
  simpa [hne] using h

theorem bind_kexAlgOf_eq_none {choice : Option Bytes} (h : ∀ name ∈ choice, name ∈ ourNames) :
    choice.bind kexAlgOf = none ↔ choice = none := by
  cases choice with
  | none => simp
  | some name =>
    have hsome := kexAlgOf_isSome (h name rfl)
    constructor
    · intro hn
      rw [Option.bind_some] at hn
      rw [hn] at hsome
      cases hsome
    · intro hn
      cases hn

/-- The server finds no method exactly if the lists have no name in common. -/
theorem selectKexAlg_eq_none {payload list : Bytes} (h : kexList payload = some list) :
    selectKexAlg payload = none ↔ ∀ name ∈ names list, name ∉ ourNames := by
  rw [selectKexAlg_eq h, bind_kexAlgOf_eq_none fun name hn ↦ (firstCommon_mem hn).1,
    firstCommon_none_comm, firstCommon_eq_none]

/-- The server and the client come to the same choice, and to none only if there
is none. -/
def ChoosesAsClient (payload list : Bytes) : Prop :=
  selectKexAlg payload = rfcChoice list ∧
    (selectKexAlg payload = none ↔ ∀ name ∈ names list, name ∉ ourNames)

/-- No other name of the server stands in front of the hybrid method's, if that
is on the list. -/
def HybridFirst (list : Bytes) : Prop :=
  mlkemName ∈ names list →
    ∀ name ∈ (names list).takeWhile (· ≠ mlkemName), name ≠ curveName ∧ name ≠ libsshName

/-- The server's order gives the choice of the client's order exactly for the
lists that have the hybrid method in front of the classical one. -/
theorem select_agrees_iff {payload list : Bytes} (h : kexList payload = some list) :
    ChoosesAsClient payload list ↔ HybridFirst list := by
  rw [ChoosesAsClient, and_iff_left (selectKexAlg_eq_none h), selectKexAlg_eq h, rfcChoice]
  have hours : mlkemName ∈ ourNames := by decide +kernel
  by_cases hm : mlkemName ∈ names list
  · have hserver : firstCommon ourNames (names list) = some mlkemName := by
      rw [firstCommon, ourNames_eq, List.find?_cons_of_pos (by simpa using hm)]
    have hclient : (firstCommon (names list) ourNames).bind kexAlgOf = some .mlkem768X25519 ↔
        firstCommon (names list) ourNames = some mlkemName := by
      simp only [Option.bind_eq_some_iff, kexAlgOf_mlkem, exists_eq_right]
    rw [hserver, Option.bind_some, kexAlgOf_mlkem.mpr rfl, eq_comm, hclient,
      firstCommon_eq_some_iff hm hours, HybridFirst, imp_iff_right hm]
    have hother : ∀ name ∈ (names list).takeWhile (· ≠ mlkemName),
        name ∉ ourNames ↔ name ≠ curveName ∧ name ≠ libsshName := by
      intro name hname
      have hne : name ≠ mlkemName := ne_of_mem_takeWhile hname
      rw [ourNames_eq]
      simp [hne]
    exact ⟨fun hall name hname ↦ (hother name hname).mp (hall name hname),
      fun hall name hname ↦ (hother name hname).mpr (hall name hname)⟩
  · have hclassical : ∀ name ∈ names list, name ∈ ourNames →
        kexAlgOf name = some .curve25519Sha256 :=
      fun name hname hour ↦ kexAlgOf_classical hour fun he ↦ hm (he ▸ hname)
    have hsame : (firstCommon ourNames (names list)).bind kexAlgOf =
        (firstCommon (names list) ourNames).bind kexAlgOf := by
      rcases hs : firstCommon ourNames (names list) with _ | a
      · rw [firstCommon_none_comm.mp hs]
      · rcases hc : firstCommon (names list) ourNames with _ | b
        · rw [firstCommon_none_comm.mp hc] at hs
          cases hs
        · obtain ⟨ha, ha'⟩ := firstCommon_mem hs
          obtain ⟨hb, hb'⟩ := firstCommon_mem hc
          exact (hclassical a ha' ha).trans (hclassical b hb hb').symm
    exact ⟨fun _ hmem ↦ absurd hmem hm, fun _ ↦ hsame⟩

/-- The server's own proposal with another list of key exchanges. -/
def withKex (list : String) : Bytes :=
  kexinitOf (List.replicate 16 0) (ascii list :: ourLists.tail) 0

theorem select_agrees_iff_mixed :
    let list := ascii "sntrup761x25519-sha512,curve25519-sha256,ext-info-c"
    ChoosesAsClient (withKex "sntrup761x25519-sha512,curve25519-sha256,ext-info-c") list ↔
      HybridFirst list :=
  select_agrees_iff (by decide +kernel)

/-- A client that prefers the classical method gets the hybrid one. -/
theorem classical_first_overruled :
    let payload := withKex "curve25519-sha256,mlkem768x25519-sha256"
    kexList payload = some (ascii "curve25519-sha256,mlkem768x25519-sha256") ∧
      ¬ChoosesAsClient payload (ascii "curve25519-sha256,mlkem768x25519-sha256") := by
  have hserver : selectKexAlg (withKex "curve25519-sha256,mlkem768x25519-sha256") =
      some .mlkem768X25519 := by decide +kernel
  have hclient : rfcChoice (ascii "curve25519-sha256,mlkem768x25519-sha256") =
      some .curve25519Sha256 := by decide +kernel
  refine ⟨by decide +kernel, fun h ↦ ?_⟩
  rw [ChoosesAsClient, hserver, hclient] at h
  cases h.1

/-! The other lists. -/

/-- One of the client's lists has a name of the server's. -/
def Common (ours theirs : Bytes) : Prop := ours = [] ∨ ∃ name ∈ names ours, name ∈ names theirs

instance (ours theirs : Bytes) : Decidable (Common ours theirs) :=
  inferInstanceAs (Decidable (_ ∨ _))

/-- Every list on which the server offers something has a common name. -/
def Negotiable (payload : Bytes) : Prop :=
  ∃ lists follows, Proposes payload lists follows ∧ List.Forall₂ Common ourLists lists

/-- The list of key exchanges can be read and has a common name. -/
def SharesKex (payload : Bytes) : Prop :=
  ∃ list, kexList payload = some list ∧ ∃ name ∈ names list, name ∈ ourNames

theorem selectKexAlg_isSome {payload : Bytes} :
    (∃ alg, selectKexAlg payload = some alg) ↔ SharesKex payload := by
  cases hk : kexList payload with
  | none =>
    rw [selectKexAlg_none hk]
    constructor
    · rintro ⟨alg, ha⟩
      cases ha
    · rintro ⟨list, hl, -⟩
      rw [hk] at hl
      cases hl
  | some list =>
    have hiff := not_congr (selectKexAlg_eq_none hk)
    rw [← Option.ne_none_iff_exists']
    refine hiff.trans ?_
    simp only [not_forall, not_not, exists_prop]
    constructor
    · intro h
      exact ⟨list, hk, h⟩
    · rintro ⟨list', hl, h⟩
      rw [hk] at hl
      cases hl
      exact h

/-- The first list of a proposal is the one the server looks at. -/
theorem Proposes.kexList {payload list : Bytes} {rest : List Bytes} {follows : UInt8}
    (h : Proposes payload (list :: rest) follows) : kexList payload = some list := by
  obtain ⟨v, v', ht, -⟩ := h
  obtain ⟨u, hg, -⟩ := takeStrings_succ.mp ht
  obtain ⟨-, hrest, -⟩ := getString_some (viewInit_ok _) hg
  have hlen := congrArg List.length hrest
  rw [List.length_append, lenPrefixed_length] at hlen
  have hle : (viewInit (payload.drop 17)).rest.length ≤ payload.length - 17 := by
    rw [(viewInit_ok _).rest_length, ← List.length_drop]
    exact (viewInit_ok (payload.drop 17)).n_le.trans' (Nat.sub_le _ _)
  rw [Server.kexList, if_neg (by omega), hg]

theorem Negotiable.sharesKex {payload : Bytes} (h : Negotiable payload) : SharesKex payload := by
  obtain ⟨lists, follows, hp, hall⟩ := h
  cases hall with
  | cons hfirst hrest =>
    rename_i list rest
    refine ⟨list, hp.kexList, ?_⟩
    rcases hfirst with hnil | ⟨name, hour, htheir⟩
    · exact absurd hnil (by decide)
    · exact ⟨name, htheir, hour⟩

variable {P : Primitives} {w : World}

/-- The hashes that keys were derived from. -/
def derivations (obs : List Obs) : List Bytes :=
  obs.filterMap fun o ↦ match o with
    | .deriveKeys h => some h
    | _ => none

/-- From `w` to `w'` the session ended with a DISCONNECT and without new keys, and
nothing that came after is looked at. -/
structure Refused (P : Primitives) (w w' : World) : Prop where
  closed : w'.s.phase = .closed
  goodbye : ∃ code msg, sentPayloads w'.obs = sentPayloads w.obs ++ [disconnect code msg]
  keyless : derivations w'.obs = derivations w.obs
  deaf : ∀ fuel, receiveLoop P fuel w' = w'

theorem derivations_append (obs os : List Obs) :
    derivations (obs ++ os) = derivations obs ++ derivations os := List.filterMap_append

theorem derivations_send (w : World) (payload : Bytes) :
    derivations (sendPacket P w payload).obs = derivations w.obs :=
  filterMap_send (fun _ ↦ rfl) (fun _ ↦ rfl) (fun _ _ _ _ ↦ rfl) w payload

theorem refused_bye {v : World} (h : CanSend v.s) (hsent : sentPayloads v.obs = sentPayloads w.obs)
    (hkeys : derivations v.obs = derivations w.obs) (code : UInt32) (msg : String) :
    Refused P w (sendDisconnect P v code msg) where
  closed := rfl
  goodbye := ⟨code, msg, by rw [sentPayloads_bye h, hsent]⟩
  keyless := by
    rw [sendDisconnect_obs, derivations_append, derivations_send, hkeys]
    exact List.append_nil _
  deaf := by
    intro fuel
    cases fuel with
    | zero => rfl
    | succ fuel => exact if_pos rfl

theorem handleKexinit_none {payload : Bytes} (h : selectKexAlg payload = none) :
    handleKexinit P w payload =
      sendDisconnect P (w.modify fun s ↦ { s with peerKexInit := payload }) 3
        "no common KEX algorithm" := by
  simp only [handleKexinit, h]

theorem handleKexinit_some {payload : Bytes} {alg : KexAlg} (h : selectKexAlg payload = some alg) :
    handleKexinit P w payload =
      w.modify fun s ↦ { s with peerKexInit := payload, kexAlg := alg, phase := .kexWaitEcdh } := by
  simp only [handleKexinit, h]
  rfl

theorem handleKexinit_proceeds {payload : Bytes} :
    (handleKexinit P w payload).s.phase = .kexWaitEcdh ↔ SharesKex payload := by
  rw [← selectKexAlg_isSome]
  cases hs : selectKexAlg payload with
  | none =>
    rw [handleKexinit_none hs]
    constructor
    · intro h
      cases h
    · rintro ⟨alg, ha⟩
      cases ha
  | some alg =>
    rw [handleKexinit_some hs]
    exact ⟨fun _ ↦ ⟨alg, rfl⟩, fun _ ↦ rfl⟩

theorem handleKexinit_refuses (hw : CanSend w.s) {payload : Bytes} (h : ¬SharesKex payload) :
    Refused P w (handleKexinit P w payload) := by
  have hnone : selectKexAlg payload = none := by
    cases hs : selectKexAlg payload with
    | none => rfl
    | some alg => exact absurd (selectKexAlg_isSome.mp ⟨alg, hs⟩) h
  rw [handleKexinit_none hnone]
  have hcan : CanSend (w.modify fun s ↦ { s with peerKexInit := payload }).s := hw
  exact refused_bye (w := w) hcan rfl rfl 3 "no common KEX algorithm"

/-- A KEXINIT takes the session on if it is negotiable, and ends it if not. -/
def ProceedsRightly (P : Primitives) (w : World) (payload : Bytes) : Prop :=
  ((handleKexinit P w payload).s.phase = .kexWaitEcdh ↔ Negotiable payload) ∧
    (¬Negotiable payload → Refused P w (handleKexinit P w payload))

/-- The server does right by the payloads whose other lists are in order if the
first one is, which is all that it looks at. -/
theorem proceeds_iff (hw : w.s.phase = .kexWaitKexinit) (htcp : 0 ≤ w.s.tcp) (payload : Bytes) :
    ProceedsRightly P w payload ↔ (SharesKex payload → Negotiable payload) := by
  have hcan : CanSend w.s := ⟨by rw [hw]; decide, htcp⟩
  rw [ProceedsRightly, handleKexinit_proceeds]
  constructor
  · intro h hkex
    exact h.1.mp hkex
  · intro h
    refine ⟨⟨h, Negotiable.sharesKex⟩, fun hno ↦ ?_⟩
    exact handleKexinit_refuses hcan fun hkex ↦ hno (h hkex)

/-- A session that waits for the client's KEXINIT. -/
def waitingWorld : World :=
  (accepted 0 sampleEnv 3).modify fun s ↦ { s with phase := .kexWaitKexinit }

theorem proceeds_iff_waiting :
    ProceedsRightly standIn waitingWorld clientKexinit ↔
      (SharesKex clientKexinit → Negotiable clientKexinit) :=
  proceeds_iff rfl (by decide) clientKexinit

/-- A client that has neither the server's host key type nor its cipher. -/
def rsaKexinit : Bytes :=
  kexinitOf (List.replicate 16 0)
    [ascii "curve25519-sha256", ascii "ssh-rsa", ascii "aes128-ctr", ascii "aes128-ctr",
      ascii "hmac-sha2-256", ascii "hmac-sha2-256", ascii "none", ascii "none", [], []] 0

theorem unspeakable_proposal_taken :
    waitingWorld.s.phase = .kexWaitKexinit ∧ ¬ProceedsRightly standIn waitingWorld rsaKexinit := by
  refine ⟨rfl, fun h ↦ ?_⟩
  have hkex : SharesKex rsaKexinit :=
    selectKexAlg_isSome.mp ⟨.curve25519Sha256, by decide +kernel⟩
  obtain ⟨lists, follows, hp, hall⟩ := h.1.mp (handleKexinit_proceeds.mpr hkex)
  have hread : Proposes rsaKexinit
      [ascii "curve25519-sha256", ascii "ssh-rsa", ascii "aes128-ctr", ascii "aes128-ctr",
        ascii "hmac-sha2-256", ascii "hmac-sha2-256", ascii "none", ascii "none", [], []] 0 :=
    kexinitOf_proposes List.length_replicate rfl (by decide +kernel)
  obtain ⟨rfl, -⟩ := hp.unique hread
  cases hall with
  | cons _ hrest =>
    cases hrest with
    | cons hkey _ => exact absurd hkey (by decide +kernel)

end Sshd.Server

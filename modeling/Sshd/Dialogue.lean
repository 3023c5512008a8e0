import Sshd.Synchrony
import Sshd.Server.Effect

namespace Sshd

open Lib.Octets Wire Framing

/-! What a client asks of a server, and what answers it. -/

inductive Query
  | exchange
  | service
  | login
  | channel
  | request
  deriving DecidableEq

/-- The payloads that ask. A channel request asks if it wants a reply. -/
def Query.asks : Query → Bytes → Bool
  | .exchange, payload => payload.head? = some 30
  | .service, payload => payload.head? = some 5
  | .login, payload => payload.head? = some 50
  | .channel, payload => payload.head? = some 90
  | .request, payload => (Server.wantReply payload).any (· ≠ 0)

/-- The types of the messages that answer: NEWKEYS ends an exchange; a key may be
found fit before it is used. -/
def Query.answers : Query → List UInt8
  | .exchange => [21]
  | .service => [6]
  | .login => [51, 52, 60]
  | .channel => [91, 92]
  | .request => [99, 100]

/-- Besides these a client waits for the server's KEXINIT only. -/
def answerTypes : List UInt8 :=
  20 :: ([.exchange, .service, .login, .channel, .request] : List Query).flatMap Query.answers

/-- The types of the messages that a client waits for. -/
def replies (payloads : List Bytes) : List UInt8 :=
  payloads.filterMap fun p ↦ p.head?.filter (· ∈ answerTypes)

def asked (q : Query) (payloads : List Bytes) : ℕ := payloads.countP q.asks

def answersTo (q : Query) (payloads : List Bytes) : ℕ := (replies payloads).countP (· ∈ q.answers)

/-- A publickey request without a signature. -/
def probes (payload : Bytes) : Bool :=
  match payload with
  | [] => false
  | type :: body =>
    if type ≠ 50 then false else
    match takeStrings 3 (viewInit body) with
    | some ([_, _, method], v) => method = ascii "publickey" ∧ (getU8 v).1 = 0
    | _ => false

/-- A request to be connected. -/
def wantsBackend (payload : Bytes) : Bool :=
  match payload with
  | [] => false
  | type :: body =>
    if type ≠ 98 then false else
    (getString (getU32 (viewInit body)).2).1.any fun name ↦
      name = ascii "shell" || name = ascii "exec" || name = ascii "subsystem"

/-- The last channel request, and the last reply to one. -/
def lastRequest (payloads : List Bytes) : Option Bytes :=
  (payloads.filter fun p ↦ (Server.wantReply p).isSome).getLast?

def lastReply (payloads : List Bytes) : Option UInt8 :=
  ((replies payloads).filter (· ∈ Query.request.answers)).getLast?

/-- Data is put as its reader will take it, and none of it is extended. -/
def Formed (payload : Bytes) : Prop :=
  payload.head? ≠ some 95 ∧ (payload.head? = some 94 → ∃ ch d, d.length < 2 ^ 32 ∧
    payload = putString (putU32 (putU8 [] 94) ch) d)

theorem formed_of_head {payload : Bytes} {t : UInt8} (hp : payload.head? = some t)
    (ht : t ∉ [94, 95]) : Formed payload := by
  rw [List.mem_cons, List.mem_singleton, not_or] at ht
  rw [Formed, hp]
  exact ⟨fun h ↦ ht.2 (Option.some.inj h), fun h ↦ absurd (Option.some.inj h) ht.1⟩

theorem replies_append (ps qs : List Bytes) : replies (ps ++ qs) = replies ps ++ replies qs :=
  List.filterMap_append

theorem asked_append (q : Query) (ps qs : List Bytes) :
    asked q (ps ++ qs) = asked q ps + asked q qs := List.countP_append

theorem asked_mono (q : Query) {ps qs : List Bytes} (h : ps <+: qs) : asked q ps ≤ asked q qs :=
  h.sublist.countP_le

theorem replies_mono {ps qs : List Bytes} (h : ps <+: qs) : replies ps <+: replies qs :=
  h.filterMap _

theorem answersTo_mono (q : Query) {ps qs : List Bytes} (h : ps <+: qs) :
    answersTo q ps ≤ answersTo q qs := (replies_mono h).sublist.countP_le

/-- A message of a type that nobody waits for. -/
theorem replies_other {payload : Bytes} (h : ∀ t ∈ answerTypes, payload.head? ≠ some t) :
    replies [payload] = [] := by
  rw [replies, List.filterMap_cons_none, List.filterMap_nil]
  cases hp : payload.head? with
  | none => rfl
  | some t =>
    rw [Option.filter_some, if_neg]
    exact fun hm ↦ h t (of_decide_eq_true hm) hp

theorem replies_singleton {payload : Bytes} {t : UInt8} (hp : payload.head? = some t)
    (ht : t ∈ answerTypes) : replies [payload] = [t] := by
  have hs : payload.head?.filter (· ∈ answerTypes) = some t := by
    rw [hp, Option.filter_some, if_pos (decide_eq_true ht)]
  simp only [replies, List.filterMap_cons, List.filterMap_nil, hs]

/-- All but the channel requests are known by their types. -/
theorem Query.asks_of_head (q : Query) {payload : Bytes} {t : UInt8} (hp : payload.head? = some t)
    (ht : t ≠ 98) : q.asks payload = q.asks [t] := by
  cases q with
  | request =>
    have hnone (body : Bytes) : Server.wantReply (t :: body) = none := if_pos ht
    obtain ⟨body, rfl⟩ : ∃ body, payload = t :: body := List.head?_eq_some_iff.mp hp
    rw [Query.asks, Query.asks, hnone, hnone]
  | _ => rw [Query.asks, Query.asks, hp]; rfl

/-- The type of what asks. -/
def Query.type : Query → UInt8
  | .exchange => 30
  | .service => 5
  | .login => 50
  | .channel => 90
  | .request => 98

theorem Query.type_mem (q : Query) : q.type ∈ [30, 5, 50, 90, 98] := by cases q <;> decide

theorem Query.type_injective : Function.Injective Query.type := by
  intro q q' h
  revert h
  cases q <;> cases q' <;> decide

theorem Query.head_of_asks {q : Query} {payload : Bytes} (h : q.asks payload = true) :
    payload.head? = some q.type := by
  cases q with
  | request =>
    cases payload with
    | nil => cases h
    | cons t body =>
      by_cases ht : t = Server.msgChannelRequest
      · rw [ht]
        rfl
      · simp [Query.asks, Server.wantReply, ht] at h
  | _ => exact of_decide_eq_true h

/-- A message asks one thing. -/
theorem Query.asks_unique {q q' : Query} {payload : Bytes} (h : q.asks payload = true)
    (h' : q'.asks payload = true) : q = q' :=
  Query.type_injective (Option.some.inj ((Query.head_of_asks h).symm.trans (Query.head_of_asks h')))

/-- Messages that ask nothing. -/
theorem asked_eq_zero {ps : List Bytes} (q : Query)
    (h : ∀ p ∈ ps, ∃ b ∉ [30, 5, 50, 90, 98], p.head? = some b) : asked q ps = 0 := by
  refine List.countP_eq_zero.mpr fun p hp ha ↦ ?_
  obtain ⟨b, hb, hh⟩ := h p hp
  exact hb (Option.some.inj ((Query.head_of_asks ha).symm.trans hh) ▸ q.type_mem)

theorem lastRequest_snoc {hs : List Bytes} {p : Bytes} : lastRequest (hs ++ [p]) =
    if (Server.wantReply p).isSome then some p else lastRequest hs := by
  unfold lastRequest
  rw [List.filter_append]
  split
  · rename_i h
    rw [List.filter_singleton, h]
    exact List.getLast?_concat ..
  · rename_i h
    rw [List.filter_singleton, Bool.eq_false_iff.mpr h]
    exact congrArg _ (List.append_nil _)

/-- Behind other messages the last request stays the last. -/
theorem lastRequest_append {hs ps : List Bytes} (h : ∀ p ∈ ps, p.head? ≠ some 98) :
    lastRequest (hs ++ ps) = lastRequest hs := by
  have hnone : ps.filter (fun p ↦ (Server.wantReply p).isSome) = [] := by
    refine List.filter_eq_nil_iff.mpr fun p hp hs ↦ ?_
    obtain ⟨want, hw⟩ := Option.isSome_iff_exists.mp hs
    exact h p hp (Server.wantReply_head hw)
  rw [lastRequest, List.filter_append, hnone, List.append_nil]
  rfl

theorem asked_request_eq_zero {ps : List Bytes} (h : ∀ p ∈ ps, p.head? ≠ some 98) :
    asked .request ps = 0 :=
  List.countP_eq_zero.mpr fun p hp ha ↦ h p hp (Query.head_of_asks ha)

end Sshd

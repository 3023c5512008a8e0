import Sshd.Client.Acts

namespace Sshd.Client

open Lib.Octets Lib.Trace Wire Crypto Framing

variable (P : Primitives)

/-! What goes back and forth between `do_auth` and the server. -/

inductive Method
  | none
  | publickey
  | keyboardInteractive
  | password
  deriving DecidableEq

def Method.name : Method → String
  | .none => "none"
  | .publickey => "publickey"
  | .keyboardInteractive => "keyboard-interactive"
  | .password => "password"

/-- The method whose verdict is read at a place. -/
def Pc.method : Pc → Option Method
  | .noneProbe => some .none
  | .publickey => some .publickey
  | .keyboardInteractive => some .keyboardInteractive
  | .password => some .password
  | _ => none

/-- A packet that asks for a method. -/
def Asks (user : Bytes) (m : Method) (payload : Bytes) : Prop :=
  userauthRequest user m.name <+: payload

/-- Requests and INFO_RESPONSEs sent, the CHANNEL_OPEN that follows a `do_auth` that
is true, verdicts in the packets opened, and what `auth_recv` gets to see. -/
inductive Line
  | request (payload : Bytes)
  | response (payload : Bytes)
  | channel
  | verdict (ok : Bool)
  | returned (pc : Pc) (t : ℤ) (pkt : Bytes)
  deriving DecidableEq

/-- SUCCESS or FAILURE. -/
def verdictOf (t : ℤ) : Option Bool :=
  if t = msgUserauthSuccess.toNat then some true
  else if t = msgUserauthFailure.toNat then some false
  else none

def sentLine (payload : Bytes) : Option Line :=
  if payload.head? = some msgUserauthRequest then some (.request payload)
  else if payload.head? = some msgUserauthInfoResponse then some (.response payload)
  else if payload.head? = some msgChannelOpen then some .channel
  else none

def heardLine (payload : Bytes) : Option Line :=
  payload.head?.bind fun b ↦ (verdictOf b.toNat).map .verdict

def Obs.line : Obs → Option Line
  | .sealed f => sentLine f.payload
  | .opened _ _ _ _ payload => heardLine payload
  | .received pc t pkt => if pc.method = none then none else some (.returned pc t pkt)
  | _ => none

def login (obs : List Obs) : List Line := obs.filterMap Obs.line

def requests (log : List Line) : List Bytes :=
  log.filterMap fun l ↦ match l with
    | .request payload => some payload
    | _ => none

def verdicts (log : List Line) : List Bool :=
  log.filterMap fun l ↦ match l with
    | .verdict ok => some ok
    | _ => none

def Line.Alive : Line → Prop
  | .returned _ t _ => 0 ≤ t
  | _ => True

/-- The server's replies come one by one behind the requests, on a connection that
stays up. -/
structure Answering (log : List Line) : Prop where
  causal : EachAfter (fun pre l ↦ ∀ ok, l = .verdict ok →
    (verdicts pre).length < (requests pre).length) log
  alive : ∀ l ∈ log, l.Alive

/-- The verdicts are those of a server that accepts the requests `accepts` says,
counted from 0. -/
def Agrees (accepts : ℕ → Bool) (log : List Line) : Prop :=
  ∀ k ok, (verdicts log)[k]? = some ok → accepts k = ok

/-- The last request is for `m`, and it is the only one without a reply. -/
def Pending (user : Bytes) (m : Method) (log : List Line) : Prop :=
  ∃ front last, requests log = front ++ [last] ∧ Asks user m last ∧
    (verdicts log).length = front.length

def Line.GivesPassword (user : Bytes) : Line → Prop
  | .request payload => Asks user .password payload
  | .response _ => True
  | _ => False

/-- Every place takes the reply to its own request for its verdict, `do_auth` is true
when some request was accepted and then only, and the password waits for the refusal
of the key. -/
structure Attributed (accepts : ℕ → Bool) (w : World) : Prop where
  waits : ∀ m, w.pc.method = some m → Pending w.job.user m (login w.obs)
  took : EachAfter (fun pre l ↦ ∀ pc t pkt m ok, l = .returned pc t pkt → pc.method = some m →
    verdictOf t = some ok → ∃ front last, requests pre = front ++ [last] ∧
      Asks w.job.user m last ∧ (verdicts pre).length = front.length + 1 ∧
        accepts front.length = ok) (login w.obs)
  result : w.pc.method = none →
    (.channel ∈ login w.obs ↔ ∃ k < (requests (login w.obs)).length, accepts k = true)
  password : w.job.tryPubkey = true → EachAfter (fun pre l ↦ l.GivesPassword w.job.user →
    ∃ k r, (requests pre)[k]? = some r ∧ Asks w.job.user .publickey r ∧
      k < (verdicts pre).length ∧ accepts k = false) (login w.obs)

/-- A banner, a verdict, or prompts that `auth_keyboard_interactive` can answer. -/
def Line.Awaited : Line → Prop
  | .returned pc t pkt =>
    t = msgUserauthBanner.toNat ∨ verdictOf t ≠ none ∨
      pc = .keyboardInteractive ∧ t = msgUserauthInfoRequest.toNat ∧ infoRequestPrompts pkt ≠ none
  | _ => True

/-- `do_auth` gets to see nothing but what it waits for, each time before its deadline. -/
def Prompt (log : List Line) : Prop := ∀ l ∈ log, l.Awaited

instance : DecidablePred Line.Alive := fun l ↦ by
  cases l <;> unfold Line.Alive <;> infer_instance

instance : DecidablePred Line.Awaited := fun l ↦ by
  cases l <;> unfold Line.Awaited <;> infer_instance

variable {P}

section
variable {log more : List Line} {payload pkt : Bytes} {ok : Bool} {pc : Pc} {t : ℤ}

theorem login_append (obs os : List Obs) : login (obs ++ os) = login obs ++ login os :=
  List.filterMap_append

@[simp] theorem requests_append : requests (log ++ more) = requests log ++ requests more :=
  List.filterMap_append

@[simp] theorem verdicts_append : verdicts (log ++ more) = verdicts log ++ verdicts more :=
  List.filterMap_append

@[simp] theorem requests_nil : requests [] = [] := rfl
@[simp] theorem requests_request : requests (.request payload :: log) = payload :: requests log := rfl
@[simp] theorem requests_response : requests (.response payload :: log) = requests log := rfl
@[simp] theorem requests_channel : requests (.channel :: log) = requests log := rfl
@[simp] theorem requests_verdict : requests (.verdict ok :: log) = requests log := rfl
@[simp] theorem requests_returned : requests (.returned pc t pkt :: log) = requests log := rfl

@[simp] theorem verdicts_nil : verdicts [] = [] := rfl
@[simp] theorem verdicts_request : verdicts (.request payload :: log) = verdicts log := rfl
@[simp] theorem verdicts_response : verdicts (.response payload :: log) = verdicts log := rfl
@[simp] theorem verdicts_channel : verdicts (.channel :: log) = verdicts log := rfl
@[simp] theorem verdicts_verdict : verdicts (.verdict ok :: log) = ok :: verdicts log := rfl
@[simp] theorem verdicts_returned : verdicts (.returned pc t pkt :: log) = verdicts log := rfl

end

/-! What is added to the log. -/

section
variable {w w' : World}

theorem login_eq_nil {os : List Obs} (h : ∀ o ∈ os, o.line = none) : login os = [] :=
  List.filterMap_eq_nil_iff.mpr h

theorem login_snoc (obs : List Obs) (o : Obs) : login (obs ++ [o]) = login obs ++ o.line.toList := by
  rw [login_append]
  refine congrArg (login obs ++ ·) ?_
  cases h : o.line with
  | none => simp [login, h]
  | some l => simp [login, h]

/-- Types of no concern to a login. -/
def Aside (t : UInt8) : Prop :=
  t ≠ msgUserauthRequest ∧ t ≠ msgUserauthInfoResponse ∧ t ≠ msgChannelOpen

theorem kexTypes_aside : ∀ t ∈ kexTypes, Aside t := by
  simp [kexTypes, Aside, msgUserauthRequest, msgUserauthInfoResponse, msgChannelOpen, msgKexinit,
    msgKexEcdhInit, msgNewkeys, msgServiceRequest]

theorem channelTypes_aside : ∀ t ∈ channelTypes, Aside t := by
  simp [channelTypes, Aside, msgUserauthRequest, msgUserauthInfoResponse, msgChannelOpen,
    msgRequestFailure, msgChannelRequest, msgChannelEof, msgChannelClose, msgChannelWindowAdjust,
    msgChannelData]

/-- The exchange of keys and the channel leave the login alone. -/
theorem Acts.same_login {types : List UInt8} {pcs : List Pc} (h : Acts types pcs w w')
    (ht : ∀ t ∈ types, Aside t) : login w'.obs = login w.obs := by
  obtain ⟨os, hobs, hos⟩ := h.obs
  have hnil : login os = [] := by
    refine login_eq_nil fun o ho ↦ ?_
    have hsays := hos o ho
    cases o with
    | sealed f =>
      obtain ⟨t, hmem, hhead⟩ := hsays
      obtain ⟨h₁, h₂, h₃⟩ := ht t hmem
      simp [Obs.line, sentLine, hhead, h₁, h₂, h₃]
    | opened => exact hsays.elim
    | received => exact hsays.elim
    | _ => rfl
  rw [hobs, login_append, hnil, List.append_nil]

theorem login_sendPacket (w : World) (payload : Bytes) :
    login (sendPacket P w payload).obs = login w.obs ++ (sentLine payload).toList := by
  obtain ⟨rest, hobs, hrest⟩ := sendObs_eq P w payload
  have hnil : login rest = [] := by
    refine login_eq_nil fun o ho ↦ ?_
    obtain ⟨_, _, rfl⟩ := hrest o ho
    rfl
  rw [sendPacket_obs, hobs, ← List.append_assoc, ← List.append_assoc, login_append, hnil,
    List.append_nil, login_snoc, login_snoc]
  exact congrArg (· ++ _) (List.append_nil _)

theorem login_request {payload : Bytes} (h : payload.head? = some msgUserauthRequest) :
    login (sendPacket P w payload).obs = login w.obs ++ [.request payload] := by
  rw [login_sendPacket, sentLine, if_pos h]
  rfl

theorem login_response (num : UInt32) (password : Bytes) :
    login (sendPacket P w (infoResponse num password)).obs =
      login w.obs ++ [.response (infoResponse num password)] := by
  have h := infoResponse_head num password
  rw [login_sendPacket, sentLine, if_neg (by rw [h]; decide), if_pos h]
  rfl

theorem login_startChannel (w : World) :
    login (startChannel P w).obs = login w.obs ++ [.channel] := by
  rw [startChannel, goto_obs, login_sendPacket]
  rfl

theorem login_noteFailureMethods (w : World) (pkt : Bytes) :
    login (noteFailureMethods w pkt).obs = login w.obs := by
  unfold noteFailureMethods
  split <;> rfl

/-- A round of `recv_packet` adds the verdict that it returns, if it does. -/
theorem login_recvRound (expired : Bool) (w : World) :
    login (recvRound P expired w).2.obs = login w.obs ++
      ((recvRound P expired w).1.bind fun r ↦ (verdictOf r.1).map .verdict).toList := by
  cases h : w.parsed P with
  | bad =>
    rw [recvRound_bad h]
    exact (List.append_nil _).symm
  | needMore =>
    have hfill : login (fillRx w).2.obs = login w.obs ++ [] := login_snoc w.obs _
    rw [recvRound_wait h]
    split
    · exact (List.append_nil _).symm
    split
    · exact hfill
    · exact hfill
  | got out rest =>
    have hoff : login (readOff w out rest).obs = login w.obs ++ (heardLine out).toList :=
      login_snoc w.obs _
    cases out with
    | nil =>
      rw [recvRound_empty h]
      exact hoff
    | cons b body =>
      rw [recvRound_packet h]
      split
      · rename_i hs
        rw [hoff]
        rcases hs with rfl | rfl <;> rfl
      · exact hoff

end

/-! What the log keeps to. -/

section
variable (g : Given)

/-- The server has refused the key, where there is one. -/
def KeyRefused (log : List Line) : Prop :=
  g.tryPubkey = true → ∃ (k : ℕ) (r : Bytes), (requests log)[k]? = some r ∧
    Asks g.user .publickey r ∧ (verdicts log)[k]? = some false

/-- What is said of the verdicts taken and of the password, with the verdicts in the
log for those of the server. -/
structure Recorded (log : List Line) : Prop where
  took : EachAfter (fun pre l ↦ ∀ pc t pkt m ok, l = .returned pc t pkt → pc.method = some m →
    verdictOf t = some ok → ∃ front last, requests pre = front ++ [last] ∧ Asks g.user m last ∧
      (verdicts pre).length = front.length + 1 ∧ (verdicts pre)[front.length]? = some ok) log
  password : EachAfter (fun pre l ↦ l.GivesPassword g.user → KeyRefused g pre) log

/-- All requests up to now were answered, and none was accepted. -/
structure Refused (log : List Line) : Prop extends Recorded g log where
  answered : (requests log).length = (verdicts log).length
  refused : true ∉ verdicts log
  closed : .channel ∉ log

/-- All requests but the last were refused. -/
structure Waiting (m : Method) (log : List Line) : Prop extends Recorded g log where
  pending : Pending g.user m log
  refused : true ∉ verdicts log
  closed : .channel ∉ log
  key : m = .keyboardInteractive ∨ m = .password → KeyRefused g log

/-- `do_auth` has returned, or was not called. -/
structure Settled (log : List Line) : Prop extends Recorded g log where
  answered : (requests log).length = (verdicts log).length
  result : .channel ∈ log ↔ true ∈ verdicts log

end

/-- Places before the first request. -/
def Pc.Early (pc : Pc) : Prop :=
  pc = .version ∨ pc = .kexinit ∨ pc = .kexEcdhReply ∨ pc = .newkeys ∨ pc = .serviceAccept

instance : DecidablePred Pc.Early := fun pc ↦ by
  unfold Pc.Early
  infer_instance

/-- A session at every place it can be at. -/
structure Login (w : World) : Prop where
  waits : ∀ m, w.pc.method = some m → Waiting w.job.given m (login w.obs)
  settled : w.pc.method = none → Settled w.job.given (login w.obs)
  fresh : w.pc.Early → login w.obs = []

section
variable {g : Given} {log : List Line} {l : Line} {m : Method} {pc : Pc} {t : ℤ} {pkt : Bytes}

theorem KeyRefused.append (h : KeyRefused g log) (more : List Line) :
    KeyRefused g (log ++ more) := by
  intro ht
  obtain ⟨k, r, hr, ha, hv⟩ := h ht
  have hlt (α : Type) (xs ys : List α) (x : α) (hx : xs[k]? = some x) : (xs ++ ys)[k]? = some x := by
    obtain ⟨hk, -⟩ := List.getElem?_eq_some_iff.mp hx
    rw [List.getElem?_append_left hk, hx]
  refine ⟨k, r, ?_, ha, ?_⟩
  · rw [requests_append]
    exact hlt _ _ _ _ hr
  · rw [verdicts_append]
    exact hlt _ _ _ _ hv

theorem Recorded.nil : Recorded g [] := ⟨eachAfter_nil _, eachAfter_nil _⟩

theorem Settled.nil : Settled g [] := ⟨.nil, rfl, by simp⟩

theorem Refused.nil : Refused g [] := ⟨.nil, rfl, by simp, by simp⟩

theorem Recorded.snoc (h : Recorded g log)
    (ht : ∀ pc t pkt, l = .returned pc t pkt → verdictOf t = none)
    (hp : l.GivesPassword g.user → KeyRefused g log) : Recorded g (log ++ [l]) := by
  refine ⟨h.took.snoc ?_, h.password.snoc hp⟩
  intro pc t pkt m ok he _ hv
  rw [ht pc t pkt he] at hv
  cases hv

theorem Recorded.verdict (h : Recorded g log) (ok : Bool) : Recorded g (log ++ [.verdict ok]) :=
  h.snoc (fun _ _ _ he ↦ by cases he) fun hp ↦ hp.elim

/-- The place that waits takes the verdict. -/
theorem Waiting.take (h : Waiting g m log) (hm : pc.method = some m) {ok : Bool}
    (hv : verdictOf t = some ok) : Recorded g (log ++ [.verdict ok] ++ [.returned pc t pkt]) := by
  have hr := h.toRecorded.verdict ok
  refine ⟨hr.took.snoc ?_, hr.password.snoc fun hp ↦ hp.elim⟩
  intro pc' t' pkt' m' ok' he hm' hv'
  injection he with hpc ht _
  subst hpc ht
  obtain rfl : m = m' := Option.some.inj (hm.symm.trans hm')
  obtain rfl : ok = ok' := Option.some.inj (hv.symm.trans hv')
  obtain ⟨front, last, hreq, ha, hlen⟩ := h.pending
  refine ⟨front, last, by simp [hreq], ha, by simp [hlen], ?_⟩
  rw [verdicts_append, List.getElem?_append_right hlen.le, hlen, Nat.sub_self]
  rfl

theorem Waiting.refuse (h : Waiting g m log) (hm : pc.method = some m)
    (hv : verdictOf t = some false) :
    Refused g (log ++ [.verdict false] ++ [.returned pc t pkt]) ∧
      (m ≠ .none → KeyRefused g (log ++ [.verdict false] ++ [.returned pc t pkt])) := by
  have hclosed := h.closed
  have hrefused := h.refused
  obtain ⟨front, last, hreq, ha, hlen⟩ := h.pending
  refine ⟨⟨h.take hm hv, ?_, ?_, ?_⟩, fun hnone ↦ ?_⟩
  · simp [hreq, hlen]
  · simp [hrefused]
  · simp [hclosed]
  · cases m with
    | none => exact absurd rfl hnone
    | publickey =>
      refine fun _ ↦ ⟨front.length, last, ?_, ha, ?_⟩
      · simp [hreq]
      · simp [hlen]
    | keyboardInteractive => exact ((h.key (.inl rfl)).append _).append _
    | password => exact ((h.key (.inr rfl)).append _).append _

theorem Waiting.accept (h : Waiting g m log) (hm : pc.method = some m)
    (hv : verdictOf t = some true) :
    Settled g (log ++ [.verdict true] ++ [.returned pc t pkt] ++ [.channel]) := by
  obtain ⟨front, last, hreq, ha, hlen⟩ := h.pending
  refine ⟨?_, by simp [hreq, hlen], by simp⟩
  exact (h.take hm hv).snoc (fun _ _ _ he ↦ by cases he) fun hp ↦ hp.elim

/-- What is neither a verdict nor a request leaves the place waiting. -/
theorem Waiting.pass (h : Waiting g m log) (hreq : requests [l] = []) (hver : verdicts [l] = [])
    (hl : l ≠ .channel) (ht : ∀ pc t pkt, l = .returned pc t pkt → verdictOf t = none)
    (hp : l.GivesPassword g.user → KeyRefused g log) : Waiting g m (log ++ [l]) := by
  have hclosed := h.closed
  obtain ⟨front, last, hlast, ha, hlen⟩ := h.pending
  refine ⟨h.toRecorded.snoc ht hp, ⟨front, last, ?_, ha, ?_⟩, ?_, ?_, fun hm ↦ (h.key hm).append _⟩
  · rw [requests_append, hreq, List.append_nil, hlast]
  · rw [verdicts_append, hver, List.append_nil, hlen]
  · rw [verdicts_append, hver, List.append_nil]
    exact h.refused
  · simp [hclosed, hl.symm]

theorem Waiting.returned (h : Waiting g m log) (hv : verdictOf t = none) :
    Waiting g m (log ++ [.returned pc t pkt]) :=
  h.pass rfl rfl (fun he ↦ by cases he)
    (fun _ _ _ he ↦ by injection he with _ ht _; rwa [← ht]) fun hp ↦ hp.elim

theorem Refused.settled (h : Refused g log) : Settled g log :=
  ⟨h.toRecorded, h.answered, iff_of_false h.closed h.refused⟩

theorem name_inj {m m' : Method}
    (h : lenPrefixed (ascii m.name) <+: lenPrefixed (ascii m'.name)) : m = m' := by
  cases m <;> cases m' <;> first | rfl | exact absurd h (by decide)

/-- Different methods are asked for with different requests. -/
theorem Asks.method {user payload : Bytes} {m m' : Method} (h : Asks user m payload)
    (h' : Asks user m' payload) : m = m' := by
  have hsplit (m : Method) : userauthRequest user m.name =
      putCstring (putString (putU8 [] msgUserauthRequest) user) "ssh-connection" ++
        lenPrefixed (ascii m.name) := by
    rw [userauthRequest, putCstring, putString_eq]
  rw [Asks, hsplit] at h h'
  obtain hle | hle := List.prefix_or_prefix_of_prefix h h'
  · exact name_inj ((List.prefix_append_right_inj _).mp hle)
  · exact (name_inj ((List.prefix_append_right_inj _).mp hle)).symm

theorem Asks.head {user payload : Bytes} (h : Asks user m payload) :
    payload.head? = some msgUserauthRequest := by
  obtain ⟨more, rfl⟩ := h
  exact userauthRequest_head user m.name more

theorem Refused.ask (h : Refused g log) {payload : Bytes} (ha : Asks g.user m payload)
    (hk : m = .keyboardInteractive ∨ m = .password → KeyRefused g log) :
    Waiting g m (log ++ [.request payload]) := by
  have hclosed := h.closed
  have hrefused := h.refused
  refine ⟨h.toRecorded.snoc (fun _ _ _ he ↦ by cases he) fun hp ↦ ?_,
    ⟨requests log, payload, by simp, ha, by simp [h.answered]⟩, by simp [hrefused],
    by simp [hclosed], fun hm ↦ (hk hm).append _⟩
  exact hk (.inr (ha.method hp))

end

end Sshd.Client

import Sshd.Client.State
import Sshd.Keys.Text
import Mathlib.Data.Nat.Digits.Defs

namespace Sshd.Client

open Lib.Octets
open Keys (atoi isdigit isspace digitsValue decimal)

/-! The command line of `ssh`. -/

/-- What `cmd_ssh` is told by the settings, the user and the system. A setting
is a C string. -/
structure Cli where
  wantsHelp : Bytes → Bool
  sshPort : ℤ
  sshUser : Bytes
  sshUser_text : 0 ∉ sshUser
  sshPassword : Bytes
  userSeed : Option Bytes
  typedPassword : Option Bytes
  workerUp : Bool
  free : Bool
  memory : Bool

/-- What a command comes to: a text on the terminal, or a session. -/
inductive Reply
  | help
  | message (text : Bytes)
  | session (job : SshJob) (port : UInt16)

def safeStrncpy (size : ℕ) (s : Bytes) : Bytes := (cString s).take (size - 1)

/-- `(uint16_t)atoi`; a number that is no `int` reads as the nearest one. -/
def portOf (text : Bytes) : UInt16 := UInt16.ofInt (max (-2 ^ 31) (min (atoi text) (2 ^ 31 - 1)))

/-! The tokens; the index into the arguments is what lies behind it. -/

def skipws (args : Bytes) : Bytes := args.dropWhile (· = 32)

def token (args : Bytes) : Bytes × Bytes :=
  ((skipws args).takeWhile (· ≠ 32), (skipws args).dropWhile (· ≠ 32))

/-- The loop over the options: the port, the target, and what is left. Every
round takes a character at least. -/
def optionLoop : ℕ → UInt16 → Bytes → Except Bytes (UInt16 × Bytes × Bytes)
  | 0, port, args => .ok (port, [], args)
  | fuel + 1, port, args =>
    match skipws args with
    | [] => .ok (port, [], [])
    | c :: rest =>
      if c = 45 then
        let (opt, args) := token (c :: rest)
        if opt = ascii "-p" then
          let (pv, args) := token args
          optionLoop fuel (if pv ≠ [] then portOf pv else port) args
        else .error (ascii "ssh: unknown option " ++ opt ++ ascii "\n")
      else
        let (target, args) := token (c :: rest)
        .ok (port, target, args)

/-- From the worker on. -/
def launch (cli : Cli) (job : SshJob) (port : UInt16) : Reply :=
  if !cli.workerUp then .message (ascii "ssh: cannot start worker\n")
  else if !cli.free then .message (ascii "ssh: a session is already in progress\n")
  else if !cli.memory then .message (ascii "ssh: out of memory\n")
  else .session job port

/-- From the authentication material on. -/
def startSession (cli : Cli) (host user command : Bytes) (port : UInt16) : Reply :=
  let job : SshJob :=
    { host := host
      user := user
      haveCmd := command ≠ []
      command := command
      havePassword := cli.sshPassword ≠ []
      password := cli.sshPassword
      tryPubkey := cli.userSeed.isSome
      seed := cli.userSeed.getD []
      hasIn := command = [] }
  if !job.havePassword && !job.tryPubkey then
    match cli.typedPassword with
    | none => .message (ascii "ssh: cancelled\n")
    | some pw =>
      if pw = [] then .message (ascii "ssh: no password entered\n")
      else launch cli { job with password := pw, havePassword := true } port
  else launch cli job port

def cmdSsh (cli : Cli) (a : Bytes) : Reply :=
  if a = ascii "help" then .help
  else if cli.wantsHelp a then .help
  else
    match optionLoop (a.length + 1) (UInt16.ofInt cli.sshPort) a with
    | .error text => .message text
    | .ok (port, target, args) =>
      if target = [] then .message (ascii "usage: ssh [user@]host [command]\n") else
      let command := skipws args
      let (user, host) :=
        if 64 ∈ target then
          (safeStrncpy 64 (target.take (target.idxOf 64)), target.drop (target.idxOf 64 + 1))
        else (safeStrncpy 64 cli.sshUser, target)
      if host = [] then .message (ascii "ssh: empty host\n")
      else startSession cli (safeStrncpy 96 host) user command port

/-- The address that `run_session` dials. -/
def dialTarget (job : SshJob) (port : UInt16) : Bytes :=
  snprintf 110 (job.host ++ ascii ":" ++ decimal port.toNat)

/-! What a line says. -/

/-- `options* [user@]host [command]`, with the values of the `-p` options. -/
structure CommandLine where
  ports : List Bytes
  user : Option Bytes
  host : Bytes
  command : Bytes

def CommandLine.target (l : CommandLine) : Bytes :=
  match l.user with
  | none => l.host
  | some user => user ++ 64 :: l.host

def Blank (gap : Bytes) : Prop := ∀ c ∈ gap, c = 32

/-- A word of the line. -/
structure Word (text : Bytes) : Prop where
  ne : text ≠ []
  blank : 32 ∉ text

/-- The options as they may be written, each with white space behind it. -/
inductive Options : List Bytes → Bytes → Prop
  | nil : Options [] []
  | cons {value gap gap' : Bytes} {values : List Bytes} {rest : Bytes} (hv : Word value)
      (hb : Blank gap ∧ gap ≠ []) (hb' : Blank gap' ∧ gap' ≠ []) (h : Options values rest) :
      Options (value :: values) (ascii "-p" ++ gap ++ value ++ gap' ++ rest)

/-- `a` is a way to write the line. -/
structure Writes (a : Bytes) (l : CommandLine) : Prop where
  text : 0 ∉ a
  host : l.host ≠ []
  word : 32 ∉ l.target
  first : l.target.head? ≠ some 45
  user : ∀ user ∈ l.user, 64 ∉ user
  plain : l.user = none → 64 ∉ l.host
  command : l.command.head? ≠ some 32
  shape : ∃ lead opts gap, a = lead ++ (opts ++ (l.target ++ (gap ++ l.command))) ∧ Blank lead ∧
    Options l.ports opts ∧ Blank gap ∧ (l.command ≠ [] → gap ≠ [])

/-- The decimal text of a port. -/
structure PortNumber (text : Bytes) : Prop where
  digits : text ≠ [] ∧ ∀ c ∈ text, isdigit c = true
  range : 1 ≤ digitsValue text ∧ digitsValue text ≤ 65535

/-- The session is the one that the line asks for, and the line fits the fields of
the job. -/
structure Means (cli : Cli) (l : CommandLine) (job : SshJob) (port : UInt16) : Prop where
  host : job.host = l.host
  user : job.user = l.user.getD cli.sshUser
  given : ∀ value ∈ l.ports.getLast?, PortNumber value ∧ (port.toNat : ℤ) = digitsValue value
  default : l.ports = [] → (port.toNat : ℤ) = cli.sshPort
  command : job.command = l.command
  haveCmd : job.haveCmd = true ↔ l.command ≠ []
  dial : dialTarget job port = l.host ++ ascii ":" ++ decimal port.toNat
  hostFits : l.host.length ≤ 95
  userFits : ∀ user ∈ l.user, user.length ≤ 63

/-- The line, with the defaults it leaves open, fits the fields of the job. -/
structure Fits (cli : Cli) (l : CommandLine) : Prop where
  host : l.host.length ≤ 95
  user : (l.user.getD cli.sshUser).length ≤ 63
  given : ∀ value ∈ l.ports.getLast?, PortNumber value
  default : l.ports = [] → 0 ≤ cli.sshPort ∧ cli.sshPort ≤ 65535

/-- Nothing else keeps a session from being started. -/
structure Able (cli : Cli) (a : Bytes) : Prop where
  help : a ≠ ascii "help" ∧ cli.wantsHelp a = false
  auth : cli.sshPassword ≠ [] ∨ cli.userSeed.isSome ∨ ∃ pw, cli.typedPassword = some pw ∧ pw ≠ []
  up : cli.workerUp = true ∧ cli.free = true ∧ cli.memory = true

/-! The tokens of a line. -/

section
variable {gap text rest : Bytes}

theorem skipws_blank (hb : Blank gap) (rest : Bytes) : skipws (gap ++ rest) = skipws rest :=
  List.dropWhile_append_of_pos fun c hc ↦ decide_eq_true (hb c hc)

theorem skipws_text (h : text.head? ≠ some 32) : skipws text = text := by
  cases text with
  | nil => rfl
  | cons c text => exact List.dropWhile_cons_of_neg (by simpa using h)

theorem Word.head (h : Word text) (rest : Bytes) : (text ++ rest).head? ≠ some 32 := by
  cases text with
  | nil => exact absurd rfl h.ne
  | cons c text =>
    intro hc
    exact h.blank (List.mem_cons.mpr (.inl (Option.some.inj hc).symm))

/-- What follows a word in a line. -/
def Ends (rest : Bytes) : Prop := rest = [] ∨ rest.head? = some 32

theorem ends_blank (hb : Blank gap ∧ gap ≠ []) (rest : Bytes) : Ends (gap ++ rest) := by
  obtain ⟨hall, hne⟩ := hb
  cases gap with
  | nil => exact absurd rfl hne
  | cons c gap => exact .inr (congrArg some (hall c List.mem_cons_self))

theorem blank_nil : Blank [] := by simp [Blank]

theorem token_word (hb : Blank gap) (h : Word text) (hr : Ends rest) :
    token (gap ++ (text ++ rest)) = (text, rest) := by
  have hall : ∀ c ∈ text, decide (c ≠ 32) = true := fun c hc ↦
    decide_eq_true fun h0 ↦ h.blank (h0 ▸ hc)
  have hstop : rest.takeWhile (fun c ↦ decide (c ≠ 32)) = [] ∧
      rest.dropWhile (fun c ↦ decide (c ≠ 32)) = rest := by
    cases rest with
    | nil => exact ⟨rfl, rfl⟩
    | cons c rest =>
      obtain rfl : c = 32 := Option.some.inj (hr.resolve_left (List.cons_ne_nil c rest))
      exact ⟨rfl, rfl⟩
  rw [token, skipws_blank hb, skipws_text (h.head rest), List.takeWhile_append_of_pos hall,
    List.dropWhile_append_of_pos hall, hstop.1, hstop.2, List.append_nil]

end

theorem Options.length_le {values : List Bytes} {opts : Bytes} (h : Options values opts) :
    values.length ≤ opts.length := by
  induction h with
  | nil => exact le_rfl
  | cons _ _ _ _ ih =>
    simp only [List.length_append, List.length_cons]
    have htwo : (ascii "-p").length = 2 := rfl
    omega

/-- The last `-p` counts. -/
def lastPort (values : List Bytes) (port : UInt16) : UInt16 :=
  (values.getLast?.map portOf).getD port

theorem lastPort_cons (value : Bytes) (values : List Bytes) (port : UInt16) :
    lastPort (value :: values) port = lastPort values (portOf value) := by
  rw [lastPort, lastPort, List.getLast?_cons]
  cases values.getLast? <;> rfl

theorem optionLoop_options {values : List Bytes} {opts lead target rest : Bytes} {fuel : ℕ}
    {port : UInt16} (h : Options values opts) (hlead : Blank lead) (ht : Word target)
    (hfirst : target.head? ≠ some 45) (hr : Ends rest) (hfuel : values.length < fuel) :
    optionLoop fuel port (lead ++ (opts ++ (target ++ rest))) =
      .ok (lastPort values port, target, rest) := by
  induction h generalizing lead fuel port with
  | nil =>
    obtain ⟨fuel, rfl⟩ := Nat.exists_eq_add_one_of_ne_zero (Nat.ne_zero_of_lt hfuel)
    obtain ⟨c, tail, rfl⟩ := List.exists_cons_of_ne_nil ht.ne
    have hc : c ≠ 45 := fun h0 ↦ hfirst (congrArg some h0)
    have htoken := token_word blank_nil ht hr
    rw [List.nil_append] at htoken
    rw [optionLoop, skipws_blank hlead, List.nil_append, skipws_text (ht.head rest)]
    simp only [List.cons_append] at htoken ⊢
    rw [if_neg hc, htoken]
    rfl
  | @cons value gap gap' values opts hv hb hb' _ ih =>
    obtain ⟨fuel, rfl⟩ := Nat.exists_eq_add_one_of_ne_zero (Nat.ne_zero_of_lt hfuel)
    have hp : Word (ascii "-p") := ⟨by decide, by decide⟩
    have hline : ascii "-p" ++ gap ++ value ++ gap' ++ opts ++ (target ++ rest) =
        ascii "-p" ++ (gap ++ (value ++ (gap' ++ (opts ++ (target ++ rest))))) := by
      simp only [List.append_assoc]
    have hopt := token_word blank_nil hp
      (ends_blank hb (value ++ (gap' ++ (opts ++ (target ++ rest)))))
    have hval := token_word hb.1 hv (ends_blank hb' (opts ++ (target ++ rest)))
    rw [List.nil_append] at hopt
    rw [optionLoop, skipws_blank hlead, hline, skipws_text (hp.head _), lastPort_cons]
    have hdash : ∀ line, ascii "-p" ++ line = 45 :: ([112] ++ line) := fun _ ↦ rfl
    rw [hdash] at hopt ⊢
    simp only [if_true, hopt, hval, hv.ne, ne_eq, not_false_eq_true]
    exact ih hb'.1 (Nat.lt_of_succ_lt_succ hfuel)

/-! The fields of the job. -/

section
variable {cli : Cli} {a : Bytes} {l : CommandLine}

theorem split_target (h : Writes a l) :
    (if 64 ∈ l.target then
        (safeStrncpy 64 (l.target.take (l.target.idxOf 64)), l.target.drop (l.target.idxOf 64 + 1))
      else (safeStrncpy 64 cli.sshUser, l.target)) =
      (safeStrncpy 64 (l.user.getD cli.sshUser), l.host) := by
  cases hu : l.user with
  | none =>
    have htarget : l.target = l.host := by rw [CommandLine.target, hu]
    rw [htarget, if_neg (h.plain hu)]
    rfl
  | some user =>
    have htarget : l.target = user ++ 64 :: l.host := by rw [CommandLine.target, hu]
    have hno : 64 ∉ user := h.user user hu
    have hidx : (user ++ 64 :: l.host).idxOf 64 = user.length := by
      rw [List.idxOf_append_of_notMem hno, List.idxOf_cons_self, Nat.add_zero]
    rw [htarget, if_pos (by simp), hidx, List.take_left, List.drop_append]
    simp

theorem target_word (h : Writes a l) : Word l.target := by
  refine ⟨?_, h.word⟩
  rw [CommandLine.target]
  split
  · exact h.host
  · exact List.append_ne_nil_of_right_ne_nil _ (List.cons_ne_nil _ _)

/-- A line is read as it is written, up to the sizes of the fields. -/
theorem cmdSsh_written (h : Writes a l) (hhelp : a ≠ ascii "help" ∧ cli.wantsHelp a = false) :
    cmdSsh cli a = startSession cli (safeStrncpy 96 l.host)
      (safeStrncpy 64 (l.user.getD cli.sshUser)) l.command
      (lastPort l.ports (UInt16.ofInt cli.sshPort)) := by
  obtain ⟨lead, opts, gap, rfl, hlead, hopts, hgap, hne⟩ := h.shape
  have hr : Ends (gap ++ l.command) := by
    by_cases hc : l.command = []
    · cases gap with
      | nil => exact .inl hc
      | cons c gap => exact ends_blank ⟨hgap, List.cons_ne_nil _ _⟩ _
    · exact ends_blank ⟨hgap, hne hc⟩ _
  have hword := target_word h
  have hfuel : l.ports.length < (lead ++ (opts ++ (l.target ++ (gap ++ l.command)))).length + 1 := by
    have hlen := hopts.length_le
    simp only [List.length_append]
    omega
  have hcommand : skipws (gap ++ l.command) = l.command := by
    rw [skipws_blank hgap, skipws_text h.command]
  rw [cmdSsh, if_neg hhelp.1, hhelp.2, if_neg Bool.false_ne_true,
    optionLoop_options hopts hlead hword h.first hr hfuel]
  dsimp only
  rw [if_neg hword.ne, hcommand, split_target h]
  exact if_neg h.host

/-- A session that is started. -/
structure Started (host user command : Bytes) (job : SshJob) : Prop where
  host : job.host = host
  user : job.user = user
  haveCmd : job.haveCmd = decide (command ≠ [])
  command : job.command = command

theorem launch_session {cli : Cli} {job job' : SshJob} {port port' : UInt16} :
    launch cli job port = .session job' port' ↔
      (cli.workerUp = true ∧ cli.free = true ∧ cli.memory = true) ∧ job = job' ∧ port = port' := by
  rw [launch]
  cases cli.workerUp <;> cases cli.free <;> cases cli.memory <;> simp

/-- Nothing but the settings, the user and the system decides whether a session
is started. -/
theorem startSession_session {host user command : Bytes} {port port' : UInt16} {job : SshJob}
    (h : startSession cli host user command port = .session job port') :
    port' = port ∧ Started host user command job ∧
      (cli.sshPassword ≠ [] ∨ cli.userSeed.isSome ∨
        ∃ pw, cli.typedPassword = some pw ∧ pw ≠ []) ∧
      cli.workerUp = true ∧ cli.free = true ∧ cli.memory = true := by
  unfold startSession at h
  simp only at h
  split at h
  · split at h
    · cases h
    rename_i pw htyped
    split at h
    · cases h
    rename_i hne
    obtain ⟨hup, rfl, rfl⟩ := launch_session.mp h
    exact ⟨rfl, ⟨rfl, rfl, rfl, rfl⟩, .inr (.inr ⟨pw, htyped, hne⟩), hup⟩
  · rename_i hauth
    obtain ⟨hup, rfl, rfl⟩ := launch_session.mp h
    refine ⟨rfl, ⟨rfl, rfl, rfl, rfl⟩, ?_, hup⟩
    by_cases hpw : cli.sshPassword = []
    · refine .inr (.inl ?_)
      simpa [hpw, Option.isSome_iff_ne_none] using hauth
    · exact .inl hpw

theorem startSession_able (h : Able cli a) (host user command : Bytes) (port : UInt16) :
    ∃ job, startSession cli host user command port = .session job port := by
  unfold startSession
  simp only
  split
  · rename_i hnone
    rw [Bool.and_eq_true, Bool.not_eq_true', Bool.not_eq_true', decide_eq_false_iff_not,
      not_not] at hnone
    obtain hpw | hseed | ⟨pw, htyped, hne⟩ := h.auth
    · exact absurd hnone.1 hpw
    · simp [hnone.2] at hseed
    · simp only [htyped, hne, if_false]
      exact ⟨_, launch_session.mpr ⟨h.up, rfl, rfl⟩⟩
  · exact ⟨_, launch_session.mpr ⟨h.up, rfl, rfl⟩⟩

theorem safeStrncpy_iff {size : ℕ} {text : Bytes} (h : 0 ∉ text) :
    safeStrncpy size text = text ↔ text.length ≤ size - 1 := by
  rw [safeStrncpy, cString_eq_self h, List.take_eq_self_iff]

theorem ofInt_toNat (n : ℤ) : ((UInt16.ofInt n).toNat : ℤ) = n % 65536 := by
  rw [UInt16.ofInt, UInt16.toNat_ofNat']
  omega

theorem atoi_digits {text : Bytes} (hne : text ≠ []) (h : ∀ c ∈ text, isdigit c = true) :
    atoi text = digitsValue text := by
  obtain ⟨c, rest, rfl⟩ := List.exists_cons_of_ne_nil hne
  have hc := h c List.mem_cons_self
  have hall : ∀ n : Fin 256, isdigit (UInt8.ofNat n) = true → isspace (UInt8.ofNat n) = false ∧
      UInt8.ofNat n ≠ 45 ∧ UInt8.ofNat n ≠ 43 := by
    decide +kernel
  have hplain := hall ⟨c.toNat, c.toNat_lt⟩
  rw [UInt8.ofNat_toNat] at hplain
  obtain ⟨hspace, hminus, hplus⟩ := hplain hc
  rw [atoi, List.dropWhile_cons_of_neg (by simp [hspace])]
  simp only [hminus, hplus, if_false]

theorem safeStrncpy_length (size : ℕ) (text : Bytes) :
    (safeStrncpy size text).length ≤ size - 1 := by
  rw [safeStrncpy, List.length_take]
  exact min_le_left _ _

theorem decimal_length (port : UInt16) : (decimal port.toNat).length ≤ 5 := by
  have hlen := Nat.repr_length port.toNat 5 (by decide) (by
    have hlt := port.toNat_lt
    omega)
  rw [decimal, ascii, List.length_map]
  exact hlen

theorem cmdSsh_help {job : SshJob} {port : UInt16} (h : cmdSsh cli a = .session job port) :
    a ≠ ascii "help" ∧ cli.wantsHelp a = false := by
  rw [cmdSsh] at h
  split at h
  · cases h
  rename_i hne
  split at h
  · cases h
  rename_i hwants
  exact ⟨hne, Bool.not_eq_true _ ▸ hwants⟩

/-- No text of the line is cut off. -/
theorem line_text (h : Writes a l) : 0 ∉ l.host ∧ 0 ∉ l.user.getD cli.sshUser := by
  obtain ⟨lead, opts, gap, rfl, -⟩ := h.shape
  have htarget : 0 ∉ l.target := by
    intro h0
    exact h.text (List.mem_append_right _ (List.mem_append_right _ (List.mem_append_left _ h0)))
  rw [CommandLine.target] at htarget
  cases hu : l.user with
  | none =>
    rw [hu] at htarget
    exact ⟨htarget, cli.sshUser_text⟩
  | some user =>
    rw [hu] at htarget
    exact ⟨fun h0 ↦ htarget (List.mem_append_right _ (List.mem_cons_of_mem _ h0)),
      fun h0 ↦ htarget (List.mem_append_left _ h0)⟩

/-- The session that a line starts is the one it asks for, unless something in it
does not fit the job. -/
theorem command_line_iff (h : Writes a l) :
    (∀ job port, cmdSsh cli a = .session job port → Means cli l job port) ↔
      (Able cli a → Fits cli l) := by
  constructor
  · intro hmeans hable
    obtain ⟨job, hjob⟩ := startSession_able hable (safeStrncpy 96 l.host)
      (safeStrncpy 64 (l.user.getD cli.sshUser)) l.command
      (lastPort l.ports (UInt16.ofInt cli.sshPort))
    obtain ⟨-, hstarted, -⟩ := startSession_session hjob
    have hm := hmeans job _ ((cmdSsh_written h hable.help).trans hjob)
    refine ⟨hm.hostFits, ?_, fun value hv ↦ (hm.given value hv).1, fun hnone ↦ ?_⟩
    · have hlen := safeStrncpy_length 64 (l.user.getD cli.sshUser)
      rwa [← hstarted.user, hm.user] at hlen
    · have hport := hm.default hnone
      have hlt := (lastPort l.ports (UInt16.ofInt cli.sshPort)).toNat_lt
      omega
  · intro hfits job port hjob
    have hhelp := cmdSsh_help hjob
    rw [cmdSsh_written h hhelp] at hjob
    obtain ⟨rfl, hstarted, hauth, hup⟩ := startSession_session hjob
    have hf := hfits ⟨hhelp, hauth, hup⟩
    have htext : 0 ∉ l.host ∧ 0 ∉ l.user.getD cli.sshUser := line_text h
    have hhost : job.host = l.host := hstarted.host.trans ((safeStrncpy_iff htext.1).mpr hf.host)
    refine ⟨hhost, hstarted.user.trans ((safeStrncpy_iff htext.2).mpr hf.user),
      fun value hv ↦ ⟨hf.given value hv, ?_⟩, fun hnone ↦ ?_, hstarted.command, ?_, ?_, hf.host,
      fun user hu ↦ ?_⟩
    · obtain ⟨⟨hne, hdigits⟩, hlo, hhi⟩ := hf.given value hv
      rw [lastPort, Option.mem_def.mp hv, Option.map_some, Option.getD_some, portOf, ofInt_toNat,
        atoi_digits hne hdigits]
      omega
    · have hrange := hf.default hnone
      rw [lastPort, hnone]
      change ((UInt16.ofInt cli.sshPort).toNat : ℤ) = _
      rw [ofInt_toNat]
      omega
    · rw [hstarted.haveCmd, decide_eq_true_eq]
    · have hlen := decimal_length (lastPort l.ports (UInt16.ofInt cli.sshPort))
      have hhostLen := hf.host
      rw [dialTarget, hhost, snprintf, List.take_of_length_le]
      rw [List.length_append, List.length_append]
      change _ + 1 + _ ≤ 109
      omega
    · have hlen := hf.user
      rwa [Option.mem_def.mp hu, Option.getD_some] at hlen

end

/-- Default settings, with a password. -/
def sampleCli : Cli where
  wantsHelp _ := false
  sshPort := 22
  sshUser := ascii "root"
  sshUser_text := by decide
  sshPassword := ascii "secret"
  userSeed := none
  typedPassword := none
  workerUp := true
  free := true
  memory := true

/-- `-p value me@host ls`. -/
def sampleLine (value : Bytes) : CommandLine := ⟨[value], some (ascii "me"), ascii "host", ascii "ls"⟩

theorem sampleLine_writes (value : Bytes) (hv : Word value) (hnul : 0 ∉ value) :
    Writes (ascii "-p " ++ value ++ ascii " me@host ls") (sampleLine value) := by
  have htarget : (sampleLine value).target = ascii "me@host" := rfl
  constructor
  case text =>
    simp only [List.mem_append, not_or]
    exact ⟨⟨by decide, hnul⟩, by decide⟩
  case host => exact List.cons_ne_nil _ _
  case word =>
    rw [htarget]
    decide
  case first =>
    rw [htarget]
    decide
  case user =>
    intro user hu
    obtain rfl := Option.some.inj hu
    decide
  case plain => exact fun hnone ↦ absurd hnone (Option.some_ne_none _)
  case command => exact fun hc ↦ absurd (Option.some.inj hc) (by decide)
  case shape =>
    have hgap : Blank [32] ∧ ([32] : Bytes) ≠ [] := ⟨by simp [Blank], List.cons_ne_nil _ _⟩
    refine ⟨[], ascii "-p" ++ [32] ++ value ++ [32] ++ [], [32], ?_, by simp [Blank],
      .cons hv hgap hgap .nil, hgap.1, fun _ ↦ hgap.2⟩
    simp only [List.append_assoc]
    rfl

theorem command_line_iff_telnet :
    (∀ job port, cmdSsh sampleCli (ascii "-p 23 me@host ls") = .session job port →
        Means sampleCli (sampleLine (ascii "23")) job port) ↔
      (Able sampleCli (ascii "-p 23 me@host ls") →
        Fits sampleCli (sampleLine (ascii "23"))) :=
  command_line_iff (sampleLine_writes (ascii "23") ⟨by decide, by decide⟩ (by decide))

/-- A port that is too large goes to another port. -/
theorem large_port_taken :
    Writes (ascii "-p 65559 me@host ls") (sampleLine (ascii "65559")) ∧
      ∃ job, cmdSsh sampleCli (ascii "-p 65559 me@host ls") = .session job 23 ∧
        ¬Means sampleCli (sampleLine (ascii "65559")) job 23 := by
  refine ⟨sampleLine_writes (ascii "65559") ⟨by decide, by decide⟩ (by decide), _, rfl, fun h ↦ ?_⟩
  have hport := (h.given (ascii "65559") rfl).2
  revert hport
  decide +kernel

end Sshd.Client

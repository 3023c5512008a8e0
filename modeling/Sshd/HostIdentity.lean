import Sshd.Client.HostVerdicts
import Sshd.KeyAgreement
import Sshd.Server.HostSeed

namespace Sshd

open Lib Lib.Octets Wire Crypto Framing
open Keys (DecodesBase64 EncodesBase64)
open Server (Reveals Shown buildHostKeyBlob hostKey sshdHostFingerprint)

/-! The host key that a device shows and a client remembers. -/

section
variable {P : Primitives}

/-! The fingerprint. -/

theorem base64Nopad_eq (henc : EncodesBase64 P) {outLen : ℕ} {data : Bytes}
    (hlen : (Base64.encode data).length < outLen) :
    base64Nopad P outLen data = ((Base64.encode data).reverse.dropWhile (· = 61)).reverse := by
  rw [base64Nopad, henc outLen data hlen]

/-- Some digit stands in front of the padding. -/
theorem encode_stripped_ne_nil {data : Bytes} (hd : data ≠ []) :
    ((Base64.encode data).reverse.dropWhile (· = 61)).reverse ≠ [] := by
  obtain ⟨c, rest, he, hc⟩ : ∃ c rest, Base64.encode data = c :: rest ∧ c ≠ 61 := by
    have hdigit (a : UInt8) : Base64.digit (a.toNat / 4) ≠ 61 := by
      have ha := a.toNat_lt
      exact Base64.digit_ne_pad (by omega)
    obtain _ | ⟨a, _ | ⟨b, _ | ⟨c, rest⟩⟩⟩ := data
    · exact absurd rfl hd
    · exact ⟨_, _, rfl, hdigit a⟩
    · exact ⟨_, _, rfl, hdigit a⟩
    · exact ⟨_, _, rfl, hdigit a⟩
  intro hnil
  rw [List.reverse_eq_nil_iff, List.dropWhile_eq_nil_iff] at hnil
  have hpad := hnil c (by rw [he]; simp)
  exact hc (of_decide_eq_true hpad)

/-- The device shows the fingerprint that a client makes of its key. -/
theorem sshdHostFingerprint_eq (henc : EncodesBase64 P) {stored seed hostPub : Bytes}
    (hk : hostKey P stored = some (seed, hostPub)) :
    sshdHostFingerprint P stored 64 =
      some (Client.hostkeyFingerprint P (buildHostKeyBlob hostPub)) := by
  obtain ⟨seed', hload, hmap⟩ := Option.bind_eq_some_iff.mp hk
  obtain ⟨pub, hpub, he⟩ := Option.map_eq_some_iff.mp hmap
  cases he
  have hblob : [0, 0, 0, 11] ++ ascii "ssh-ed25519" ++ [0, 0, 0, 32] ++ hostPub =
      buildHostKeyBlob hostPub := by
    rw [buildHostKeyBlob_eq, lenPrefixed, lenPrefixed, ed25519PubFromSeed_length P hpub]
    rfl
  have hlen : (Base64.encode (sha256 P (buildHostKeyBlob hostPub))).length = 44 := by
    rw [Base64.encode_length, sha256_length]
  have hdigest : sha256 P (buildHostKeyBlob hostPub) ≠ [] :=
    List.ne_nil_of_length_pos (by rw [sha256_length]; decide)
  -- either side has room enough
  have hserver : base64Nopad P 57 (sha256 P (buildHostKeyBlob hostPub)) = _ :=
    base64Nopad_eq henc (by omega)
  have hclient : base64Nopad P 73 (sha256 P (buildHostKeyBlob hostPub)) = _ :=
    base64Nopad_eq henc (by omega)
  simp only [sshdHostFingerprint, hload, hpub, hblob, Client.hostkeyFingerprint]
  rw [if_neg (by decide), hserver, hclient, if_neg (encode_stripped_ne_nil hdigest)]

/-- `sshd-keygen` prints the fingerprint of the key that it has stored. -/
theorem cmdSshdKeygen_shows (henc : EncodesBase64 P) (hdec : DecodesBase64 P) {seed hostPub : Bytes}
    (hseed : seed.length = 32) (hpub : ed25519PubFromSeed P seed = some hostPub) (stored : Bytes) :
    hostKey P (Server.cmdSshdKeygen P stored seed).1 = some (seed, hostPub) ∧
      (Server.cmdSshdKeygen P stored seed).2 = ascii "new host key: " ++
        Client.hostkeyFingerprint P (buildHostKeyBlob hostPub) ++ ascii "\n" := by
  obtain ⟨b64, hb, hc⟩ := Option.map_eq_some_iff.mp (Server.b64Encode_seed henc hseed)
  have hkey : hostKey P (cString b64) = some (seed, hostPub) := by
    rw [hc, hostKey, Server.loadHostSeed_encode hdec hseed, Option.bind_some, hpub]
    rfl
  rw [Server.cmdSshdKeygen, hb]
  simp only [sshdHostFingerprint_eq henc hkey, and_true]
  exact hkey

/-! The verdicts of a run. -/

theorem shown_read {dev : Server.Env} {record : List Server.Obs} {pkt ks qs hpub sig64 : Bytes}
    (hs : Shown P dev record pkt) (hl : pkt.length < 2 ^ 32)
    (hr : Client.Replied pkt ks qs hpub sig64) :
    ∃ obs seed hostPub, obs <+: record ∧ hostKey P (dev.hostSeed obs) = some (seed, hostPub) ∧
      ks = buildHostKeyBlob hostPub := by
  obtain ⟨obs, seed, hostPub, rest, hobs, hkey, rfl⟩ := hs
  obtain ⟨⟨sig, hreply, -⟩, -⟩ := hr
  rw [List.length_cons] at hl
  obtain ⟨v, hg, -⟩ := getString_front (x := buildHostKeyBlob hostPub) (y := rest) (by omega)
  rw [Client.kexEcdhReply, List.drop_succ_cons, List.drop_zero, hg] at hreply
  refine ⟨obs, seed, hostPub, hobs, hkey, ?_⟩
  simp only at hreply
  split at hreply
  · cases hreply
  split at hreply
  · cases hreply
  split at hreply
  · cases hreply
  · exact (Prod.mk.inj (Except.ok.inj hreply)).1.symm

namespace Peers

variable {i : ℤ} {l l' : Peers}

theorem Moves.consults (h : Moves P i l l') : Client.Consults P l.client l'.client := by
  cases h with
  | stay => exact .refl l.client
  | client e _ => exact Client.step_consults l.client e
  | server _ _ => exact .refl l.client
  | toServer _ => exact .refl l.client
  | toClient _ => exact .still rfl rfl id

theorem consulted_run (c : Call) (events : List Event) :
    Client.Consulted c.job.host c.store (after P c events).client := by
  obtain ⟨es, hes⟩ := (run_runs (P := P) (i := c.slot) (ofCall c) events).1
  rw [after, hes]
  exact Client.consulted_run c.cenv c.job c.store es

/-- The known hosts are asked for a key that the device had stored. -/
theorem shown_run (hP : Commutes P) (c : Call) (events : List Event)
    (hall : Taken (after P c events)) :
    ∀ v ∈ Client.hostVerdicts (after P c events).client.obs, ∃ obs seed hostPub,
      obs <+: (after P c events).server.obs ∧ hostKey P (c.env.hostSeed obs) = some (seed, hostPub) ∧
        v.2.1 = Client.hostkeyFingerprint P (buildHostKeyBlob hostPub) := by
  induction events using List.reverseRecOn with
  | nil =>
    obtain ⟨took, hobs, -⟩ := Client.runSession_connected c.connects c.job c.store
    intro v hv
    change v ∈ Client.hostVerdicts (Client.runSession c.cenv c.job c.store).obs at hv
    rw [hobs] at hv
    cases hv
  | append_singleton events e ih =>
    have hall' := hall.of_grows (after_grows c events [e])
    have hmoves := step_moves (P := P) (i := c.slot) (after P c events) e
    have hjoined (hp : (after P c events).client.pc = .kexEcdhReply) :
        Joined P (step P c.slot (after P c events) e) := by
      have hfit := fit_of_exchanging c events hall' (.inr (.inr (.inl hp)))
      exact (joined_run hP c events hfit).step hP (wired_run c events) hfit hmoves
    obtain ⟨es, hes⟩ := (run_runs (P := P) (i := c.slot) (ofCall c) (events ++ [e])).2
    change (after P c (events ++ [e])).server = _ at hes
    have hreveals : Reveals P c.env (after P c (events ++ [e])).server :=
      hes ▸ Server.reveals_run c.slot c.env c.tcp es
    have hgrow := (after_grows (P := P) c events [e]).2
    rw [after_snoc] at hreveals hgrow ⊢
    have hearlier (v : Bytes × Bytes × Bool)
        (hv : v ∈ Client.hostVerdicts (after P c events).client.obs) : ∃ obs seed hostPub,
        obs <+: (step P c.slot (after P c events) e).server.obs ∧
          hostKey P (c.env.hostSeed obs) = some (seed, hostPub) ∧
            v.2.1 = Client.hostkeyFingerprint P (buildHostKeyBlob hostPub) := by
      obtain ⟨obs, seed, hostPub, hobs, hkey⟩ := ih hall' v hv
      exact ⟨obs, seed, hostPub, hobs.trans hgrow, hkey⟩
    intro v hv
    cases hmoves.consults with
    | still hv' _ _ =>
      rw [hv'] at hv
      exact hearlier v hv
    | asks hp _ hm hh hr _ hv' =>
      rw [hv', List.mem_append, List.mem_singleton] at hv
      obtain hv | rfl := hv
      · exact hearlier v hv
      · have hj := hjoined hp
        have hsaid := hj.server.answered.subset hm
        obtain ⟨f, hf, hfp⟩ := List.mem_map.mp hsaid
        have hlen := (hj.server.clean f hf).2
        rw [hfp] at hlen
        have hlong : Server.longest < 2 ^ 32 := by decide
        obtain ⟨obs, seed, hostPub, hobs, hkey, hks⟩ :=
          shown_read (hreveals.shown _ hsaid hh) (by omega) hr
        exact ⟨obs, seed, hostPub, hobs, hkey, by rw [hks]⟩

end Peers

/-! The visits of a client. -/

/-- A call with what happens in it. -/
structure Visit where
  call : Call
  events : List Peers.Event

variable (P) in
def Visit.peers (v : Visit) : Peers := Peers.after P v.call v.events

variable (P) in
/-- Each visit starts from the known hosts that the one before it has left. -/
def InTurn (visits : List Visit) : Prop :=
  visits.IsChain fun v v' ↦ v'.call.store = (v.peers P).client.knownHosts

/-- No visit makes a client forget a host. -/
theorem Visit.remembers (v : Visit) {host fp : Bytes}
    (h : Client.storedFp v.call.store host = some fp) :
    Client.storedFp (v.peers P).client.knownHosts host = some fp := by
  have hc := Peers.consulted_run (P := P) v.call v.events
  change Client.Consulted v.call.job.host v.call.store (v.peers P).client at hc
  cases hv : Client.hostVerdicts (v.peers P).client.obs with
  | nil =>
    rw [hc.unasked hv]
    exact h
  | cons verdict more =>
    obtain ⟨-, note, hcheck⟩ := hc.asked verdict (by rw [hv]; exact List.mem_cons_self)
    have hgrow := Client.foldl_grows [(v.call.job.host, verdict.2.1)] v.call.store
    rw [List.foldl_cons, List.foldl_nil, hcheck] at hgrow
    change v.call.store <+: (v.peers P).client.knownHosts at hgrow
    obtain ⟨added, hadded⟩ := hgrow
    rw [← hadded]
    obtain ⟨e, he, hfp⟩ := Option.map_eq_some_iff.mp h
    rw [Client.storedFp, List.find?_append, he, Option.some_or, Option.map_some, hfp]

theorem InTurn.remembers {v v' : Visit} {between : List Visit}
    (h : InTurn P (v :: (between ++ [v']))) {host fp : Bytes}
    (hfp : Client.storedFp (v.peers P).client.knownHosts host = some fp) :
    Client.storedFp v'.call.store host = some fp := by
  induction between generalizing v with
  | nil =>
    obtain ⟨hstore, -⟩ := List.isChain_cons_cons.mp h
    rw [hstore]
    exact hfp
  | cons u between ih =>
    obtain ⟨hstore, hrest⟩ := List.isChain_cons_cons.mp h
    rw [← hstore] at hfp
    exact ih hrest (u.remembers hfp)

/-- A client that has been to a device takes it for the same one, whatever hosts
it has visited since, if and only if it shows the same fingerprint as then. -/
theorem host_key_pinned (hP : Commutes P) (henc : EncodesBase64 P) (v v' : Visit)
    (between : List Visit) (hturn : InTurn P (v :: (between ++ [v']))) (hall : (v.peers P).Taken)
    (hall' : (v'.peers P).Taken) {host fp fp' : Bytes} {ok' : Bool} (hh : 32 ∉ host)
    (hv : (host, fp, true) ∈ Client.hostVerdicts (v.peers P).client.obs)
    (hv' : (host, fp', ok') ∈ Client.hostVerdicts (v'.peers P).client.obs) :
    (∃ obs, obs <+: (v.peers P).server.obs ∧
        sshdHostFingerprint P (v.call.env.hostSeed obs) 64 = some fp) ∧
      (∃ obs, obs <+: (v'.peers P).server.obs ∧
        sshdHostFingerprint P (v'.call.env.hostSeed obs) 64 = some fp') ∧
      ok' = decide (fp = fp') := by
  obtain ⟨hhost, note, hcheck⟩ := (Peers.consulted_run v.call v.events).asked _ hv
  obtain ⟨hhost', note', hcheck'⟩ := (Peers.consulted_run v'.call v'.events).asked _ hv'
  obtain ⟨obs, seed, hostPub, hobs, hkey, hfp⟩ := Peers.shown_run hP v.call v.events hall _ hv
  obtain ⟨obs', seed', hostPub', hobs', hkey', hfp'⟩ := Peers.shown_run hP v'.call v'.events hall' _ hv'
  refine ⟨⟨obs, hobs, (sshdHostFingerprint_eq henc hkey).trans (congrArg some hfp.symm)⟩,
    ⟨obs', hobs', (sshdHostFingerprint_eq henc hkey').trans (congrArg some hfp'.symm)⟩, ?_⟩
  rw [← hhost] at hcheck
  rw [← hhost'] at hcheck'
  have hstored := hturn.remembers
    (Client.storedFp_remembered hh (Client.knownHostsCheck_accepted hcheck))
  have hagain := Client.knownHostsCheck_stored hstored fp'
  rw [hcheck'] at hagain
  exact hagain

end

theorem coding_commutes : Commutes Keys.coding := standIn_commutes

theorem coding_encodes : EncodesBase64 Keys.coding := fun _ _ h ↦ if_pos h

/-- A visit with an empty store to a device whose host key is made of fives. -/
def firstVisit : Visit where
  call := { sampleCall with
    env := { Server.sampleEnv with hostSeed := fun _ ↦ Base64.encode (List.replicate 32 5) } }
  events := turn ++ turn.take 5

/-- A visit to another device. -/
def otherVisit : Visit where
  call := { sampleCall with
    env := { Server.sampleEnv with hostSeed := fun _ ↦ Base64.encode (List.replicate 32 8) }
    job := { Client.sampleJob with host := ascii "other" }
    store := (firstVisit.peers Keys.coding).client.knownHosts }
  events := turn ++ turn.take 5

/-- Back at the first device, where an `sshd-keygen` draws sevens as soon as a
packet has come. -/
def rekeyedVisit : Visit where
  call := { sampleCall with
    env := { Server.sampleEnv with
      hostSeed := fun obs ↦
        if Server.openings obs = [] then firstVisit.call.env.hostSeed obs else
          (Server.cmdSshdKeygen Keys.coding (firstVisit.call.env.hostSeed obs)
            (List.replicate 32 7)).1 }
    store := (otherVisit.peers Keys.coding).client.knownHosts }
  events := turn ++ turn.take 5

theorem visits_inTurn : InTurn Keys.coding [firstVisit, otherVisit, rekeyedVisit] := by
  refine List.isChain_cons_cons.mpr ⟨?_, List.isChain_cons_cons.mpr ⟨?_, .singleton _⟩⟩
  · rw [otherVisit]
  · rw [rekeyedVisit]

/-- What the known hosts say on either visit. -/
theorem visits_verdicts :
    (ascii "host", ascii "SHA256:AAAAC3NzaC1lZDI1NTE5AAUFBQUFBQUFBQUFBQUFBQU", true) ∈
        Client.hostVerdicts (firstVisit.peers Keys.coding).client.obs ∧
      (ascii "host", ascii "SHA256:AAAAC3NzaC1lZDI1NTE5AAcHBwcHBwcHBwcHBwcHBwc", false) ∈
        Client.hostVerdicts (rekeyedVisit.peers Keys.coding).client.obs :=
  ⟨by decide +kernel, by decide +kernel⟩

/-- The client refuses the new key. -/
theorem host_key_pinned_keygen :
    (∃ obs, obs <+: (firstVisit.peers Keys.coding).server.obs ∧
        sshdHostFingerprint Keys.coding (firstVisit.call.env.hostSeed obs) 64 =
          some (ascii "SHA256:AAAAC3NzaC1lZDI1NTE5AAUFBQUFBQUFBQUFBQUFBQU")) ∧
      (∃ obs, obs <+: (rekeyedVisit.peers Keys.coding).server.obs ∧
        sshdHostFingerprint Keys.coding (rekeyedVisit.call.env.hostSeed obs) 64 =
          some (ascii "SHA256:AAAAC3NzaC1lZDI1NTE5AAcHBwcHBwcHBwcHBwcHBwc")) ∧
      false = decide (ascii "SHA256:AAAAC3NzaC1lZDI1NTE5AAUFBQUFBQUFBQUFBQUFBQU" =
        ascii "SHA256:AAAAC3NzaC1lZDI1NTE5AAcHBwcHBwcHBwcHBwcHBwc") :=
  host_key_pinned coding_commutes coding_encodes firstVisit rekeyedVisit [otherVisit] visits_inTurn
    ⟨by decide +kernel, by decide +kernel⟩ ⟨by decide +kernel, by decide +kernel⟩ (by decide)
    visits_verdicts.1 visits_verdicts.2

end Sshd

import Sshd.Lockstep
import Sshd.Mpint
import Sshd.PublickeyAuth
import Sshd.Server.Moments

namespace Sshd

open Lib.Octets Lib.TwosComplement Wire Crypto Framing
open Server (Completed KexAlg Passes accepted arrivals runFrom standIn)

/-! What the first exchange comes to. -/

/-- X25519 gives no zero result. -/
def RejectsZero (P : Primitives) : Prop :=
  ∀ scalar point s, x25519Scalar P scalar point = some s → ∃ c ∈ s, c ≠ 0

/-- Who owns a public key gets back what was encapsulated to it. -/
def Inverts (P : Primitives) (owns : Bytes → Bytes → Prop) (decap : Bytes → Bytes → Option Bytes) :
    Prop :=
  ∀ sk pk coins ct ss, owns sk pk → mlkem768Encap P pk coins = some (ct, ss) →
    decap sk ct = some ss

section
variable (P : Primitives) (owns : Bytes → Bytes → Prop) (decap : Bytes → Bytes → Option Bytes)

/-- `K` is the `mpint` of the number that X25519 makes. -/
def NumberShared (priv peer k : Bytes) : Prop :=
  ∃ s, x25519Scalar P priv peer = some s ∧ IsMpint (magnitude s) k

/-- `K` is the hash of both secrets, as a string. -/
def HashShared (mlSs : Bytes) (priv peer k : Bytes) : Prop :=
  ∃ xSs, x25519Scalar P priv peer = some xSs ∧ k = lenPrefixed (sha256 P (mlSs ++ xSs))

/-- The shares have their sizes, and `K` is what either owner of a share makes
of the other one. -/
def SharedSecret : KexAlg → Handshake → Prop
  | .curve25519Sha256, x => x.qC.length = 32 ∧ x.qS.length = 32 ∧
    (∃ priv, x25519Base P priv = some x.qS ∧ NumberShared P priv x.qC x.k) ∧
    ∀ priv, x25519Base P priv = some x.qC → NumberShared P priv x.qS x.k
  | .mlkem768X25519, x => x.qC.length = 1216 ∧ x.qS.length = 1120 ∧
    (∃ coins mlSs priv, mlkem768Encap P (x.qC.take 1184) coins = some (x.qS.take 1088, mlSs) ∧
      x25519Base P priv = some (x.qS.drop 1088) ∧
      HashShared P mlSs priv (x.qC.drop 1184) x.k) ∧
    ∀ sk priv, owns sk (x.qC.take 1184) → x25519Base P priv = some (x.qC.drop 1184) →
      ∃ mlSs, decap sk (x.qS.take 1088) = some mlSs ∧
        HashShared P mlSs priv (x.qS.drop 1088) x.k

/-- Both sides have the identifier and the keys of one exchange. Its hash is what
the host key in the server's reply has signed, as the client has found. -/
structure Peers.SameKeys (l : Peers) : Prop where
  haveSessionId : l.server.s.haveSessionId = true
  sessionId : l.client.cs.sessionId = l.server.s.sessionId
  toServer : l.client.cs.sendKey = l.server.s.c2sKey
  toClient : l.client.cs.recvKey = l.server.s.s2cKey
  signed : ∃ x hpub sig, Client.Answered l.clientOpenings x hpub sig ∧
    l.client.cs.sessionId = x.hash P ∧ ed25519Verify P hpub (x.hash P) sig = true ∧
    .verify hpub (x.hash P) sig true ∈ l.client.obs

/-- Every signature that the client has checked was good. -/
def Peers.Verified (l : Peers) : Prop :=
  ∀ pub msg sig ok, .verify pub msg sig ok ∈ l.client.obs → ok = true

end

section
variable {P : Primitives} {owns : Bytes → Bytes → Prop} {decap : Bytes → Bytes → Option Bytes}

/-- The server's secret is that of the client as well. -/
theorem sharedSecret_of_agreed (hP : Commutes P) (hz : RejectsZero P) (hd : Inverts P owns decap)
    {alg : KexAlg} {x : Handshake} (h : Server.Agreed P alg x) : SharedSecret P owns decap alg x := by
  cases alg with
  | curve25519Sha256 =>
    obtain ⟨hc, hs, priv, hbase, s, hs', hk⟩ := h
    have hnum : IsMpint (magnitude s) x.k := hk ▸ mpintOctets_isMpint (hz _ _ s hs')
    refine ⟨hc, hs, ⟨priv, hbase, s, hs', hnum⟩, fun privC hbaseC ↦ ⟨s, ?_, hnum⟩⟩
    rw [hP privC priv x.qC x.qS hbaseC hbase, hs']
  | mlkem768X25519 =>
    obtain ⟨hc, hs, coins, ct, mlSs, priv, pub, xSs, hencap, hbase, hs', hq, hk⟩ := h
    have hct : ct.length = 1088 := (mlkem768Encap_length P hencap).1
    have htake : x.qS.take 1088 = ct := by rw [hq, List.take_left' hct]
    have hdrop : x.qS.drop 1088 = pub := by rw [hq, List.drop_left' hct]
    rw [SharedSecret, htake, hdrop]
    refine ⟨hc, hs, ⟨coins, mlSs, priv, hencap, hbase, xSs, hs', hk⟩, fun sk privC hown hbaseC ↦
      ⟨mlSs, hd sk _ coins ct mlSs hown hencap, xSs, ?_, hk⟩⟩
    rw [hP privC priv _ pub hbaseC hbase]
    exact hs'

namespace Peers

variable {l : Peers}

/-- Peers that have read nothing but what was sent agree. -/
theorem Joined.agreed (hP : Commutes P) (hv : VerifiesOwn P) (h : Joined P l) (hw : Wired P l)
    (hall : Taken l) : l.Verified ∧
      (l.client.pc ≠ .finished → l.client.cs.encOut = true → SameKeys P l) := by
  obtain ⟨zC, hrC, hupC⟩ := h.client.law
  obtain ⟨zS, hrS, -⟩ := h.server.law (h.server.once hrC)
  obtain ⟨hfc, hfs⟩ := hw.streams hall
  have hts : l.toServer <+: Client.versionLine ++ (l.clientFrames.map (Frame.bytes P)).flatten :=
    hfc ▸ hw.toServer
  have htc : l.toClient <+: Server.versionLine ++ (l.serverFrames.map (Frame.bytes P)).flatten :=
    hfs ▸ hw.toClient
  have hsame {y : Handshake} {hpub sig : Bytes}
      (hy : Client.OnWire P l.toClient l.clientFrames l.clientOpenings y)
      (ha : Client.Answered l.clientOpenings y hpub sig) :
      zS = some y ∧ ed25519Verify P hpub (y.hash P) sig = true := by
    obtain ⟨hz, seed, hpubOf, hsig⟩ := exchanges_agree hP hrC hrS hts htc
      h.server.follows.payloads h.server.answered hy ha
    exact ⟨hz, hv seed _ hpub sig hpubOf hsig⟩
  refine ⟨fun pub msg sig ok hm ↦ ?_, fun hp henc ↦ ?_⟩
  · obtain ⟨hok, y, rfl, hy, ha⟩ := hrC.verdicts pub msg sig ok (Client.verify_mem.mpr hm)
    exact hok.trans (hsame hy ha).2
  · obtain ⟨y, hy⟩ : ∃ y, zC = some y := by
      cases hz : zC with
      | none => cases henc.symm.trans ((hupC hp).1.early hz).1
      | some y => exact ⟨y, rfl⟩
    obtain ⟨hwire, hpub, sig, ha, hchecked⟩ := hrC.onWire y hy
    obtain ⟨hz, hgood⟩ := hsame hwire ha
    have hkc := hrC.keyed y hy
    have hks := hrS.keyed y hz
    simp only [Client.Csess.keys, Server.Session.keys, Client.Keys.mk.injEq,
      Server.Keys.mk.injEq] at hkc hks
    obtain ⟨hid, hsend, hrecv⟩ := hkc
    obtain ⟨hid', hhave, hc2s, hs2c⟩ := hks
    exact ⟨hhave, hid.trans hid'.symm, hsend.trans hc2s.symm, hrecv.trans hs2c.symm, y, hpub, sig,
      ha, hid, hgood, Client.verify_mem.mp hchecked⟩

/-- No packet is too long as long as keys are exchanged. -/
theorem fit_of_exchanging (c : Call) (events : List Event) (hall : Taken (after P c events))
    (hp : (after P c events).client.pc.Exchanging) : Fit (after P c events) := by
  obtain ⟨⟨es, hes⟩, -⟩ := run_runs (P := P) (i := c.slot) (ofCall c) events
  rw [after, hes] at hp
  have hshort := Client.exchanging_short c.connects c.job c.store es hp
  refine ⟨hall, fun f hf ↦ ?_⟩
  have hpad := (padLen_bounds f.enc f.payload.length).2
  have hlen := hshort f (by rwa [clientFrames, after, hes] at hf)
  unfold packetLen
  omega

/-- A step from peers whose packets were fit. -/
theorem agreed_next (hP : Commutes P) (hv : VerifiesOwn P) (c : Call) (events : List Event)
    (e : Event) (hfit : Fit (after P c events)) (hall : Taken (after P c (events ++ [e]))) :
    (after P c (events ++ [e])).Verified ∧
      ((after P c (events ++ [e])).client.pc ≠ .finished →
        (after P c (events ++ [e])).client.cs.encOut = true →
        SameKeys P (after P c (events ++ [e]))) := by
  refine Joined.agreed hP hv ?_ (wired_run c _) hall
  rw [after_snoc]
  exact (joined_run hP c events hfit).step hP (wired_run c events) hfit (step_moves _ e)

/-- Over a transport that takes all that is written, every signature is good. -/
theorem verified_run (hP : Commutes P) (hv : VerifiesOwn P) (c : Call) (events : List Event)
    (hall : Taken (after P c events)) : (after P c events).Verified := by
  induction events using List.reverseRecOn with
  | nil =>
    obtain ⟨took, hobs, -⟩ := Client.runSession_connected c.connects c.job c.store
    intro pub msg sig ok hm
    change _ ∈ (Client.runSession c.cenv c.job c.store).obs at hm
    rw [hobs] at hm
    simp at hm
  | append_singleton events e ih =>
    have hall' := hall.of_grows (after_grows c events [e])
    by_cases hp : (after P c events).client.pc.Exchanging
    · exact (agreed_next hP hv c events e (fit_of_exchanging c events hall' hp) hall).1
    · intro pub msg sig ok hm
      rw [after_snoc] at hm
      exact ih hall' pub msg sig ok ((step_moves _ e).unjudged hp hm)

end Peers

/-- The event that gives a server session its identifier completes an exchange of
the messages that went over the wire. -/
theorem first_exchange_on_wire (hP : Commutes P) (hz : RejectsZero P) (hd : Inverts P owns decap)
    (i : ℤ) (env : Server.Env) (tcp : ℕ) (events : List Server.Event) (e : Server.Event)
    (hfresh : (runFrom P i (accepted i env tcp) events).s.haveSessionId = false)
    (hdone : (Server.step P i (runFrom P i (accepted i env tcp) events) e).s.haveSessionId = true) :
    ∃ mid x alg, Passes P mid (Server.step P i (runFrom P i (accepted i env tcp) events) e) ∧
      Completed P (arrivals events) mid x ∧ Server.selectKexAlg x.clientKexinit = some alg ∧
      SharedSecret P owns decap alg x := by
  obtain ⟨hlaw, hawait⟩ := Server.law_run P i env tcp events
  obtain ⟨mid, x, hpass, hx⟩ := Server.completed_event hlaw hawait i hfresh hdone
  obtain ⟨alg, halg, hagreed⟩ := hx.agreed
  exact ⟨mid, x, alg, hpass, hx, halg, sharedSecret_of_agreed hP hz hd hagreed⟩

/-- The first `n` values of `f`. -/
def firsts (n : ℕ) (f : ℕ → UInt8) : Vector UInt8 n := ⟨((List.range n).map f).toArray, by simp⟩

theorem firsts_toList (n : ℕ) (f : ℕ → UInt8) : (firsts n f).toList = (List.range n).map f := by
  simp [firsts]

/-- The stand-ins with a KEM whose public keys are its secret keys. -/
def openKem : Primitives :=
  { standIn with
    cryptoKemEnc := fun pk coins ↦
      some (firsts 1088 fun k ↦ coins.getD k 0 ^^^ pk.getD k 0, firsts 32 fun k ↦ coins.getD k 0) }

def openDecap (sk ct : Bytes) : Option Bytes :=
  some (firsts 32 fun k ↦ ct.getD k 0 ^^^ sk.getD k 0).toList

theorem openKem_inverts : Inverts openKem Eq openDecap := by
  rintro sk pk coins ct ss rfl h
  simp only [mlkem768Encap, openKem, Option.map_some, Option.some.injEq, Prod.mk.injEq] at h
  obtain ⟨rfl, rfl⟩ := h
  simp only [openDecap, firsts_toList]
  refine congrArg some (List.map_congr_left fun k hk ↦ ?_)
  have hlt : k < 1088 := (List.mem_range.mp hk).trans (by decide)
  rw [List.getD_eq_getElem?_getD, List.getElem?_map, List.getElem?_range hlt]
  simp only [Option.map_some, Option.getD_some]
  rw [UInt8.xor_assoc, UInt8.xor_self, UInt8.xor_zero]

theorem openKem_x25519 : openKem.x25519Compute = standIn.x25519Compute := rfl

theorem openKem_commutes : Commutes openKem := by
  simp only [Commutes, x25519Base, x25519Scalar, openKem_x25519]
  exact standIn_commutes

theorem openKem_rejectsZero : RejectsZero openKem := by
  simp only [RejectsZero, x25519Scalar, openKem_x25519]
  intro scalar point s h
  have h := (standIn_scalar scalar point).symm.trans h
  split at h
  · cases h
  · rename_i hz
    rw [← Option.some.inj h]
    simpa using hz

/-- A client that proposes the hybrid exchange. -/
def hybridHello : Bytes :=
  ascii "SSH-2.0-x\n" ++ Server.packets false [] 0
    [putNamelist (putU8 [] Server.msgKexinit ++ List.replicate 16 0) "mlkem768x25519-sha256",
      putString (putU8 [] Server.msgKexEcdhInit) (List.replicate 1216 9)]

theorem hybrid_exchange_on_wire :
    ∃ mid x alg, Passes openKem mid (Server.step openKem 0 (runFrom openKem 0
        (accepted 0 Server.sampleEnv 3) [.tcpArrive hybridHello]) .tcpRecv) ∧
      Completed openKem (arrivals [.tcpArrive hybridHello]) mid x ∧
      Server.selectKexAlg x.clientKexinit = some alg ∧
      SharedSecret openKem Eq openDecap alg x :=
  first_exchange_on_wire openKem_commutes openKem_rejectsZero openKem_inverts 0
    Server.sampleEnv 3 [.tcpArrive hybridHello] .tcpRecv rfl (by decide +kernel)

/-- Client and server end the exchange with the same keys, and the client finds
no signature bad. -/
theorem keys_in_step (hP : Commutes P) (hv : VerifiesOwn P) (c : Call) (events : List Peers.Event)
    (e : Peers.Event) (hall : (Peers.after P c (events ++ [e])).Taken) :
    (Peers.after P c (events ++ [e])).Verified ∧
      ((Peers.after P c events).client.pc.Exchanging ∨ (Peers.after P c events).Fit →
        (Peers.after P c (events ++ [e])).client.pc ≠ .finished →
        (Peers.after P c (events ++ [e])).client.cs.encOut = true →
        (Peers.after P c (events ++ [e])).SameKeys P) := by
  refine ⟨Peers.verified_run hP hv c _ hall, fun h ↦ ?_⟩
  have hall' := hall.of_grows (Peers.after_grows c events [e])
  have hfit := h.elim (Peers.fit_of_exchanging c events hall') id
  exact (Peers.agreed_next hP hv c events e hfit hall).2

theorem standIn_verifiesOwn : VerifiesOwn standIn := by
  intro seed msg pub sig hpub hsig
  obtain rfl := Option.some.inj hpub
  obtain rfl := Option.some.inj hsig
  exact decide_eq_true rfl

/-- The client has just checked the host's signature. -/
theorem login_keys :
    (Peers.after standIn sampleCall (turn ++ turn.take 4 ++ [.client (.poll false)])).Verified ∧
      (Peers.after standIn sampleCall
        (turn ++ turn.take 4 ++ [.client (.poll false)])).SameKeys standIn := by
  have h := keys_in_step standIn_commutes standIn_verifiesOwn sampleCall (turn ++ turn.take 4)
    (.client (.poll false)) ⟨by decide +kernel, by decide +kernel⟩
  exact ⟨h.1, h.2 (.inl (.inr (.inr (.inl (by decide +kernel))))) (by decide +kernel) (by decide +kernel)⟩

end

end Sshd

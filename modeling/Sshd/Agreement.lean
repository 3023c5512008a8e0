import Sshd.Client.FirstExchange
import Sshd.Client.Outbound
import Sshd.Server.FirstExchange
import Sshd.Server.Outbound

namespace Sshd

open Lib.Octets Wire Crypto Framing

/-! The exchange that the client checks is the one that the server signs. -/

/-- X25519 makes the same secret of two shares for both of their owners. -/
def Commutes (P : Primitives) : Prop :=
  ∀ a b pubA pubB, x25519Base P a = some pubA → x25519Base P b = some pubB →
    x25519Scalar P a pubB = x25519Scalar P b pubA

/-! The version lines. -/

theorem takeLine_client : takeLine Client.versionLine = some (Client.ourVersionStr, []) := by
  decide

theorem takeLine_server : takeLine Server.versionLine = some (Server.ourVersionStr, []) := by
  decide

/-- A stream that starts with a line is read up to that line. -/
theorem firstLine {stream first version more line rest : Bytes}
    (hv : takeLine first = some (version, [])) (hs : stream <+: first ++ more)
    (hl : takeLine stream = some (line, rest)) : line = version ∧ rest <+: more := by
  obtain ⟨tail, htail⟩ := hs
  have hlong := takeLine_append hl tail
  rw [htail, takeLine_append hv more] at hlong
  obtain ⟨hver, hmore⟩ := Prod.mk.inj (Option.some.inj hlong)
  exact ⟨hver.symm, tail, hmore.symm⟩

/-- Nothing comes in front of the server's version line. -/
theorem skips_server {stream out more : Bytes} (hs : stream <+: Server.versionLine ++ more)
    (h : Client.Skips stream out) : out = stream := by
  cases h with
  | none => rfl
  | line hl hn _ =>
    obtain ⟨rfl, -⟩ := firstLine takeLine_server hs hl
    exact absurd (by decide) hn

/-! The proposals. -/

/-- The name-lists of the client's KEXINIT. -/
def clientLists : Bytes := (Client.putKexinit (List.replicate 16 0)).drop 17

theorem drop_putKexinit {cookie : Bytes} (h : cookie.length = 16) :
    (Client.putKexinit cookie).drop 17 = clientLists := by
  have hl (c : Bytes) (hc : c.length = 16) : (Client.putKexinit c).drop 17 =
      (Client.putKexinit []).drop 1 := by
    have hsplit : Client.putKexinit c = [Client.msgKexinit] ++ c ++ (Client.putKexinit []).drop 1 := by
      simp only [Client.putKexinit, putNamelist, putCstring, putString_eq, putU8, putU32,
        List.append_assoc, List.nil_append, List.drop_append]
      simp
    rw [hsplit, List.drop_left' (by simp [hc])]
  rw [hl cookie h, clientLists, hl _ (by simp)]

theorem selectKexAlg_client {cookie : Bytes} (h : cookie.length = 16) :
    Server.selectKexAlg (Client.putKexinit cookie) = some .curve25519Sha256 := by
  have hlong : ¬(Client.putKexinit cookie).length < 17 + 4 := by
    simp [Client.putKexinit, putNamelist, putCstring, putU8, putU32, h]
    omega
  rw [Server.selectKexAlg, if_neg hlong, drop_putKexinit h]
  decide +kernel

/-! The shares and the reply. -/

/-- A string at the front is read. -/
theorem getString_front {x y : Bytes} (h : (lenPrefixed x ++ y).length < 2 ^ 32) :
    ∃ v, getString (viewInit (lenPrefixed x ++ y)) = (some x, v) ∧ v.Ok ∧ v.bad = false ∧
      v.rest = y := by
  have hx : x.length < 2 ^ 32 := by
    rw [List.length_append, lenPrefixed_length] at h
    omega
  exact getString_of_rest (viewInit_ok _) rfl hx (rest_viewInit h)

/-- The server reads the share that the client sends. -/
theorem clientShare_read {pub body : Bytes} (hp : pub.length = 32)
    (hb : Server.msgKexEcdhInit :: body = putString (putU8 [] Client.msgKexEcdhInit) pub) :
    (getString (viewInit body)).1 = some pub := by
  rw [putString_eq] at hb
  obtain ⟨-, rfl⟩ := List.cons.inj hb
  obtain ⟨v, hg, -⟩ := getString_front (x := pub) (y := [])
    (by rw [List.append_nil, lenPrefixed_length]; omega)
  rw [List.append_nil] at hg
  change (getString (viewInit (lenPrefixed pub))).1 = some pub
  rw [hg]

theorem buildHostKeyBlob_eq (pub : Bytes) :
    Server.buildHostKeyBlob pub = lenPrefixed (ascii "ssh-ed25519") ++ lenPrefixed pub := by
  simp [Server.buildHostKeyBlob, putCstring]

/-- What an Ed25519 blob holds is read. -/
theorem ed25519Blob_read {data : Bytes} {size : ℕ} (hd : data.length = size) (hs : size ≤ 64)
    (notEd25519 bad : String) :
    Client.ed25519Blob (lenPrefixed (ascii "ssh-ed25519") ++ lenPrefixed data) size notEd25519 bad =
      .ok data := by
  have halg : (ascii "ssh-ed25519").length = 11 := by decide
  obtain ⟨v, hg, hv, hb, hr⟩ := getString_front (x := ascii "ssh-ed25519") (y := lenPrefixed data)
    (by rw [List.length_append, lenPrefixed_length, lenPrefixed_length]; omega)
  obtain ⟨v', hg', -⟩ := getString_of_rest (x := data) (y := []) hv hb (by omega)
    (hr.trans (List.append_nil _).symm)
  simp [Client.ed25519Blob, hg, hg', hd]

section
variable {P : Primitives}

/-- The client reads the server's reply as it was written. -/
theorem reply_read {x : Handshake} {pkt ks qs hpub sig64 : Bytes} (hr : Server.Reply P x pkt)
    (hq : x.qS.length = 32) (hc : Client.Replied pkt ks qs hpub sig64) :
    ks = x.kS ∧ qs = x.qS ∧ ∃ seed, ed25519PubFromSeed P seed = some hpub ∧
      ed25519Sign P seed (x.hash P) = some sig64 := by
  obtain ⟨seed, hostPub, sig, hpubOf, hks, hsign, rfl⟩ := hr
  obtain ⟨⟨sigBlob, hreply, hsig⟩, hkey⟩ := hc
  have halg : (ascii "ssh-ed25519").length = 11 := by decide
  have hpubLen := ed25519PubFromSeed_length P hpubOf
  have hsigLen := ed25519Sign_length P hsign
  have hksLen : x.kS.length = 51 := by
    rw [hks, buildHostKeyBlob_eq, List.length_append, lenPrefixed_length, lenPrefixed_length]
    omega
  obtain ⟨v₁, hg₁, hv₁, hb₁, hr₁⟩ := getString_front (x := x.kS) (y := lenPrefixed x.qS ++
    lenPrefixed (lenPrefixed (ascii "ssh-ed25519") ++ lenPrefixed sig))
    (by simp only [List.length_append, lenPrefixed_length]; omega)
  obtain ⟨v₂, hg₂, hv₂, hb₂, hr₂⟩ := getString_of_rest hv₁ hb₁ (by omega) hr₁
  obtain ⟨v₃, hg₃, -⟩ := getString_of_rest hv₂ hb₂
    (x := lenPrefixed (ascii "ssh-ed25519") ++ lenPrefixed sig) (y := [])
    (by simp only [List.length_append, lenPrefixed_length]; omega)
    (hr₂.trans (List.append_nil _).symm)
  rw [Client.kexEcdhReply, List.drop_succ_cons, List.drop_zero, List.append_assoc, hg₁] at hreply
  simp only [hg₂, hq, ne_eq, not_true_eq_false, if_false, hg₃] at hreply
  obtain ⟨rfl, hrest⟩ := Prod.mk.inj (Except.ok.inj hreply)
  obtain ⟨rfl, rfl⟩ := Prod.mk.inj hrest
  rw [ed25519Blob_read hsigLen le_rfl] at hsig
  rw [hks, buildHostKeyBlob_eq, ed25519Blob_read hpubLen (by decide)] at hkey
  obtain rfl := Except.ok.inj hsig
  obtain rfl := Except.ok.inj hkey
  exact ⟨rfl, rfl, seed, hpubOf, hsign⟩

/-- Where either side says what the other hears, the exchange that the client
checks is the one that the server has signed. -/
theorem exchanges_agree (hP : Commutes P) {toServer toClient fromClient fromServer : Bytes}
    {sentC sentS : List Frame} {openedC openedS : List Opening} {marks : List Client.Obs}
    {oursC oursS ephPub hpub sig64 : Bytes} {keysC : Client.Keys} {keysS : Server.Keys}
    {zC zS : Option Handshake} {y : Handshake}
    (hc : Client.Record P toClient sentC openedC marks oursC ephPub keysC zC)
    (hs : Server.Record P toServer sentS openedS oursS keysS zS)
    (hts : toServer <+: Client.versionLine ++ fromClient)
    (htc : toClient <+: Server.versionLine ++ fromServer)
    (hfs : heard openedS <+: said sentC) (hfc : heard openedC <+: said sentS)
    (hy : Client.OnWire P toClient sentC openedC y) (ha : Client.Answered openedC y hpub sig64) :
    zS = some y ∧ ∃ seed, ed25519PubFromSeed P seed = some hpub ∧
      ed25519Sign P seed (y.hash P) = some sig64 := by
  obtain ⟨pkt, hpkt, hhead, hreplied⟩ := ha
  obtain ⟨x, hx, hreply⟩ := hs.reply pkt (hfc.subset hpkt) hhead
  have hwire := hs.onWire x hx
  -- the proposals
  have hours : x.clientKexinit = oursC ∧
      ∃ cookie, cookie.length = 16 ∧ x.clientKexinit = Client.putKexinit cookie :=
    hc.proposal _ (hfs.subset hwire.clientKexinit.1) hwire.clientKexinit.2
  have hclient : y.clientKexinit = x.clientKexinit :=
    (hc.proposal _ hy.clientKexinit.1 hy.clientKexinit.2).1.trans hours.1.symm
  have hserver : y.serverKexinit = x.serverKexinit :=
    (hs.proposal _ (hfc.subset hy.serverKexinit.1) hy.serverKexinit.2).trans
      (hs.proposal _ hwire.serverKexinit.1 hwire.serverKexinit.2).symm
  obtain ⟨alg, halg, hagreed⟩ := hwire.agreed
  obtain ⟨-, cookie, hcookie, hput⟩ := hours
  rw [hput, selectKexAlg_client hcookie] at halg
  obtain rfl := Option.some.inj halg
  obtain ⟨-, hqSLen, privS, hbaseS, kS, hscalarS, hkS⟩ := hagreed
  obtain ⟨privC, hbaseC, kC, hscalarC, hkC⟩ := hy.shared
  -- the shares
  obtain ⟨hks, hqS, hsigned⟩ := reply_read hreply hqSLen hreplied
  have hqC : y.qC = x.qC := by
    obtain ⟨body, hbody, hread⟩ := hwire.qC
    have hb := hc.share _ (hfs.subset hbody) rfl
    have hq := hc.share _ hy.qC (by rw [putString_eq]; rfl)
    rw [← hq] at hb
    exact Option.some.inj ((clientShare_read (x25519Base_length P hbaseC) hb).symm.trans hread)
  have hk : y.k = x.k := by
    rw [hqS, hP privC privS y.qC x.qS hbaseC hbaseS, hqC, hscalarS] at hscalarC
    rw [hkC, hkS, Option.some.inj hscalarC]
  -- the version lines
  have hvC : y.clientVersion = x.clientVersion := by
    obtain ⟨rest, hl⟩ := hwire.clientVersion
    exact hy.clientVersion.trans (firstLine takeLine_client hts hl).1.symm
  have hvS : y.serverVersion = x.serverVersion := by
    obtain ⟨mid, rest, hskips, hl, -⟩ := hy.serverVersion
    rw [skips_server htc hskips] at hl
    exact (firstLine takeLine_server htc hl).1.trans hwire.serverVersion.symm
  have hyx : y = x := by
    cases x
    cases y
    simp_all
  rw [hyx]
  exact ⟨hx, hsigned⟩

/-- The keys of both sides are the same. -/
theorem keys_agree (hP : Commutes P) {toServer toClient fromClient fromServer : Bytes}
    {sentC sentS : List Frame} {openedC openedS : List Opening} {marks : List Client.Obs}
    {oursC oursS ephPub : Bytes} {keysC : Client.Keys} {keysS : Server.Keys}
    {zC zS : Option Handshake}
    (hc : Client.Record P toClient sentC openedC marks oursC ephPub keysC zC)
    (hs : Server.Record P toServer sentS openedS oursS keysS zS)
    (hts : toServer <+: Client.versionLine ++ fromClient)
    (htc : toClient <+: Server.versionLine ++ fromServer)
    (hfs : heard openedS <+: said sentC) (hfc : heard openedC <+: said sentS) :
    (∀ f ∈ sentC, f.enc = true → f.key = keysS.c2sKey) ∧
      (zC ≠ none → ∀ f ∈ sentS, f.enc = true → f.key = keysC.recvKey) := by
  have hsame (y : Handshake) (hy : y ∈ zC) : zS = some y := by
    obtain ⟨hw, hpub, sig64, ha, -⟩ := hc.onWire y hy
    exact (exchanges_agree hP hc hs hts htc hfs hfc hw ha).1
  constructor
  · intro f hf he
    obtain ⟨y, hy, hkey⟩ := hc.sealing f hf he
    rw [hkey, hs.keyed y (hsame y hy)]
  · intro hz f hf he
    obtain ⟨y, hy⟩ := Option.ne_none_iff_exists'.mp hz
    obtain ⟨x, hx, hkey⟩ := hs.sealing f hf he
    obtain rfl : x = y := Option.some.inj (hx.symm.trans (hsame y hy))
    rw [hkey, hc.keyed x hy]

end

end Sshd

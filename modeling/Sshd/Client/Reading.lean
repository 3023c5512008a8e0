import Sshd.Client.InOrder
import Sshd.Handshake

namespace Sshd.Client

open Lib.Octets Wire Crypto Framing

variable (P : Primitives)

/-! What a return of `recv_packet` does, as far as the exchange goes. -/

structure Keys where
  sessionId : Bytes
  sendKey : Bytes
  recvKey : Bytes

def Csess.keys (cs : Csess) : Keys := { cs with }

/-- The exchange that a session hashes. -/
def Csess.handshake (cs : Csess) (kBlob : Bytes) : Handshake :=
  ⟨cs.ourVersion, cs.peerVersion, cs.ourKexInit, cs.peerKexInit, kBlob, cs.ephPub, cs.peerEphPub,
    mpintOctets cs.sharedK⟩

/-- `w'` is the end of the session `w`, which has no keys yet. -/
structure Ended (w w' : World) : Prop where
  finished : w'.pc = .finished
  ourKexInit : w'.cs.ourKexInit = w.cs.ourKexInit
  ephPub : w'.cs.ephPub = w.cs.ephPub
  openings : openings w'.obs = openings w.obs
  notices : notices w'.obs = notices w.obs
  frames : frames w'.obs = frames w.obs
  knownHosts : w'.knownHosts = w.knownHosts

/-- The session that has the server's reply and its signature checked. -/
def judged (w : World) (ks qs k hpub sig64 : Bytes) (ok : Bool) : World :=
  (exchanged P w ks qs k).note (.verify hpub (exchanged P w ks qs k).cs.sessionId sig64 ok)

/-- The session that has its host key checked as well. -/
def checked (w : World) (ks qs k hpub sig64 : Bytes) (ok : Bool) : World :=
  (judged P w ks qs k hpub sig64 true).note (.knownHosts w.job.host (hostkeyFingerprint P ks) ok)

/-- What is read out of the server's reply. -/
structure Replied (pkt ks qs hpub sig64 : Bytes) : Prop where
  reply : ∃ sig, kexEcdhReply pkt = .ok (ks, qs, sig) ∧
    ed25519Blob sig 64 "host sig not ssh-ed25519" "bad host signature" = .ok sig64
  hostKey : ed25519Blob ks 32 "host key not ssh-ed25519" "bad host pubkey" = .ok hpub

/-- What a return of `recv_packet` does; `w` is the session with the return on
record. -/
inductive Takes (w : World) (t : ℤ) (pkt : Bytes) : World → Prop
  | chat {w'} (h : Chats w w') (hp : w.pc.stage.Keyed ∨ w'.pc = .finished) : Takes w t pkt w'
  | ended {w'} (hp : w.pc = .kexinit ∨ w.pc = .kexEcdhReply) (h : Ended w w') : Takes w t pkt w'
  | ecdhInit (hp : w.pc = .kexinit) (ht : t = msgKexinit.toNat) {priv pub : Bytes}
      (hb : x25519Base P priv = some pub) :
      Takes w t pkt ((sendPacket P
        (ephemeral (w.modify fun cs ↦ { cs with peerKexInit := pkt }) priv pub)
        (putString (putU8 [] msgKexEcdhInit) pub)).goto .kexEcdhReply)
  | refused {w'} (hp : w.pc = .kexEcdhReply) (ht : t = msgKexEcdhReply.toNat)
      {ks qs hpub sig64 k : Bytes} {ok : Bool} (hr : Replied pkt ks qs hpub sig64)
      (hx : x25519Scalar P w.cs.ephPriv qs = some k)
      (hv : ok = ed25519Verify P hpub (exchanged P w ks qs k).cs.sessionId sig64)
      (h : Ended (judged P w ks qs k hpub sig64 ok) w') : Takes w t pkt w'
  | unknown {w'} (hp : w.pc = .kexEcdhReply) (ht : t = msgKexEcdhReply.toNat)
      {ks qs hpub sig64 k note : Bytes} {store : List Bytes} (hr : Replied pkt ks qs hpub sig64)
      (hx : x25519Scalar P w.cs.ephPriv qs = some k)
      (hv : ed25519Verify P hpub (exchanged P w ks qs k).cs.sessionId sig64 = true)
      (hn : knownHostsCheck w.knownHosts w.job.host (hostkeyFingerprint P ks) = (false, note, store))
      (h : Ended (checked P w ks qs k hpub sig64 false) w') : Takes w t pkt w'
  | verified (hp : w.pc = .kexEcdhReply) (ht : t = msgKexEcdhReply.toNat)
      {ks qs hpub sig64 k note : Bytes} {store : List Bytes} (hr : Replied pkt ks qs hpub sig64)
      (hx : x25519Scalar P w.cs.ephPriv qs = some k)
      (hv : ed25519Verify P hpub (exchanged P w ks qs k).cs.sessionId sig64 = true)
      (hn : knownHostsCheck w.knownHosts w.job.host (hostkeyFingerprint P ks) = (true, note, store)) :
      Takes w t pkt (keyed P
        (sendPacket P (trusted P w ks qs k hpub sig64 store) (putU8 [] msgNewkeys)))
  | newkeys {w'} (hp : w.pc = .newkeys) (ht : t = msgNewkeys.toNat)
      (h : Chats ((w.modify fun cs ↦ { cs with encIn := true }).goto .serviceAccept) w') :
      Takes w t pkt w'

/-- A round of the loop that a worker waits in. -/
inductive Reading (w : World) : World → Prop
  | stay (hp : w.pc = .finished) : Reading w w
  | fill (hp : w.pc ≠ .finished) : Reading w (fillRx w).2
  | atEnd {v w'} (hp : w.pc = .version) (hv : v = w ∨ v = (fillRx w).2) (h : Chats v w')
      (hf : w'.pc = .finished) : Reading w w'
  | skipLine {line rest : Bytes} (hp : w.pc = .version)
      (hl : takeLine w.cs.rxBuf = some (line, rest)) (hs : line.take 4 ≠ ascii "SSH-") :
      Reading w (w.modify fun cs ↦ { cs with rxBuf := rest })
  | misfit {rest msg : Bytes} (hp : w.pc = .version) :
      Reading w (giveUp (w.modify fun cs ↦ { cs with rxBuf := rest }) msg)
  | hello {line rest : Bytes} (hp : w.pc = .version)
      (hl : takeLine w.cs.rxBuf = some (line, rest)) (hs : line.take 4 = ascii "SSH-") :
      Reading w (startKex P (w.modify fun cs ↦ { cs with rxBuf := rest, peerVersion := line }))
  | silence {v w'} {t : ℤ} (hp : w.pc ≠ .version ∧ w.pc ≠ .finished)
      (hv : v = w ∨ v = (fillRx w).2) (ht : t = 0 ∨ t = -2)
      (h : Takes P (v.note (.received w.pc t [])) t [] w') : Reading w w'
  | garbled {w'} (hp : w.pc ≠ .version ∧ w.pc ≠ .finished) (hw : tryParse P w = .bad)
      (h : Takes P (w.note (.received w.pc (-1) [])) (-1) [] w') : Reading w w'
  | hollow {w₁ w'} (hp : w.pc ≠ .version ∧ w.pc ≠ .finished) (hw : tryParse P w = .got [] w₁)
      (h : Takes P (w₁.note (.received w.pc (-1) [])) (-1) [] w') : Reading w w'
  | ignored {w₁} {b : UInt8} {body : Bytes} (hp : w.pc ≠ .version ∧ w.pc ≠ .finished)
      (hw : tryParse P w = .got (b :: body) w₁) (hb : b = msgIgnore ∨ b = msgDebug) : Reading w w₁
  | packet {w₁ w'} {b : UInt8} {body : Bytes} (hp : w.pc ≠ .version ∧ w.pc ≠ .finished)
      (hw : tryParse P w = .got (b :: body) w₁)
      (h : Takes P (w₁.note (.received w.pc b.toNat (b :: body))) b.toNat (b :: body) w') :
      Reading w w'

section
variable {P} {w w' : World}

theorem computeExchangeHash_eq (cs : Csess) (kBlob : Bytes) :
    computeExchangeHash P cs kBlob = (cs.handshake kBlob).hash P := by
  simp only [computeExchangeHash, exchangeTranscript, hashString, hashK, putString_eq,
    List.nil_append]
  rfl

theorem Chats.ended (h : Chats w w') (hp : w'.pc = .finished)
    (hf : Client.frames w'.obs = Client.frames w.obs) : Ended w w' :=
  ⟨hp, congrArg Kex.ourKexInit h.kex, congrArg Kex.ephPub h.kex, h.openings, h.notices, hf,
    h.knownHosts⟩

theorem Ended.giveUp (w : World) (msg : Bytes) : Ended w (giveUp w msg) := by
  refine (Chats.giveUp w msg).ended rfl ?_
  exact (frames_append w.obs [_]).trans (List.append_nil _)

theorem Ended.after {w₁ : World} (h : Ended w₁ w') (hc : Chats w w₁)
    (hf : Client.frames w₁.obs = Client.frames w.obs) : Ended w w' :=
  ⟨h.finished, h.ourKexInit.trans (congrArg Kex.ourKexInit hc.kex),
    h.ephPub.trans (congrArg Kex.ephPub hc.kex), h.openings.trans hc.openings,
    h.notices.trans hc.notices, h.frames.trans hf, h.knownHosts.trans hc.knownHosts⟩

theorem Ended.of_modify {f : Csess → Csess} (h : Ended (w.modify f) w')
    (hf : ((f w.cs).ourKexInit, (f w.cs).ephPub) = (w.cs.ourKexInit, w.cs.ephPub)) : Ended w w' :=
  ⟨h.finished, h.ourKexInit.trans (Prod.mk.inj hf).1, h.ephPub.trans (Prod.mk.inj hf).2, h.openings,
    h.notices, h.frames, h.knownHosts⟩

theorem onKexinit_takes (hp : w.pc = .kexinit) (t : ℤ) (pkt : Bytes) :
    Takes P w t pkt (onKexinit P w t pkt) := by
  unfold onKexinit
  split
  · exact .chat (.giveUp w _) (.inr rfl)
  split
  · exact .chat (.giveUp w _) (.inr rfl)
  rename_i ht
  simp only
  split
  · exact .ended (.inl hp) (.of_modify (f := fun cs ↦ { cs with peerKexInit := pkt }) (.giveUp _ _) rfl)
  · unfold sendEcdhInit
    simp only [randomBytes, modify_cs]
    generalize (List.range 32).map _ = priv
    split
    · have hdrawn : Chats (w.modify fun cs ↦ { cs with peerKexInit := pkt })
          ((w.modify fun cs ↦ { cs with peerKexInit := pkt }).note (.random priv)) :=
        .note _ rfl rfl rfl
      have hend := (Ended.giveUp (((w.modify fun cs ↦ { cs with peerKexInit := pkt }).note
        (.random priv)).modify fun cs ↦ { cs with ephPriv := priv })
          (ascii "x25519 base failed")).of_modify (f := fun cs ↦ { cs with ephPriv := priv }) rfl
      refine .ended (.inl hp) (Ended.of_modify (f := fun cs ↦ { cs with peerKexInit := pkt })
        (hend.after hdrawn ?_) rfl)
      exact (frames_append w.obs [_]).trans (List.append_nil _)
    · rename_i pub hb
      exact .ecdhInit hp (not_not.mp ht) hb

theorem onKexEcdhReply_takes (hp : w.pc = .kexEcdhReply) (t : ℤ) (pkt : Bytes) :
    Takes P w t pkt (onKexEcdhReply P w t pkt) := by
  unfold onKexEcdhReply
  split
  · exact .chat (.giveUp w _) (.inr rfl)
  split
  · exact .chat (.giveUp w _) (.inr rfl)
  rename_i ht
  split
  · exact .chat (.giveUp w _) (.inr rfl)
  rename_i ks qs sig hr
  have hend {v : World} (h : Ended (w.modify fun cs ↦ { cs with peerEphPub := qs }) v) :
      Takes P w t pkt v := .ended (.inr hp) (h.of_modify rfl)
  simp only
  split
  · exact hend (.giveUp _ _)
  rename_i hpub hh
  split
  · exact hend (.giveUp _ _)
  rename_i sig64 hs
  unfold verifyHost
  simp only [modify_cs]
  split
  · exact hend (.giveUp _ _)
  rename_i k hx
  have hr : Replied pkt ks qs hpub sig64 := ⟨⟨sig, hr, hs⟩, hh⟩
  change Takes P w t pkt
    (if ed25519Verify P hpub (exchanged P w ks qs k).cs.sessionId sig64 = true then
      checkKnownHosts P (judged P w ks qs k hpub sig64
        (ed25519Verify P hpub (exchanged P w ks qs k).cs.sessionId sig64)) ks
    else giveUp (judged P w ks qs k hpub sig64
        (ed25519Verify P hpub (exchanged P w ks qs k).cs.sessionId sig64))
      (ascii "HOST SIGNATURE VERIFY FAILED"))
  split
  swap
  · exact .refused hp (not_not.mp ht) hr hx rfl (.giveUp _ _)
  rename_i hv
  rw [hv]
  cases hn : knownHostsCheck w.knownHosts w.job.host (hostkeyFingerprint P ks) with
  | mk known r =>
    obtain ⟨note, store⟩ := r
    have hn' : knownHostsCheck (judged P w ks qs k hpub sig64 true).knownHosts
      (judged P w ks qs k hpub sig64 true).job.host (hostkeyFingerprint P ks) =
        (known, note, store) := hn
    unfold checkKnownHosts
    simp only [hn']
    cases known with
    | true => exact .verified hp (not_not.mp ht) hr hx hv hn
    | false =>
      rw [knownHostsCheck_refused hn']
      exact .unknown hp (not_not.mp ht) hr hx hv hn (.giveUp _ _)

theorem onNewkeys_takes (hp : w.pc = .newkeys) (t : ℤ) (pkt : Bytes) :
    Takes P w t pkt (onNewkeys P w t) := by
  unfold onNewkeys
  split
  · exact .chat (.giveUp w _) (.inr rfl)
  split
  · exact .chat (.giveUp w _) (.inr rfl)
  rename_i ht
  refine .newkeys hp (not_not.mp ht) ?_
  unfold startAuth
  rw [goto_sendPacket]
  refine .send P _ (aloof_of_head (t := msgServiceRequest) ?_ (by decide))
  rw [putCstring, putString_eq]
  rfl

theorem resume_takes (hp : w.pc ≠ .version ∧ w.pc ≠ .finished) (t : ℤ) (pkt : Bytes) :
    Takes P w t pkt (resume P w t pkt) := by
  by_cases hk : w.pc.stage.Keyed
  · exact .chat (.resume P w hk t pkt) (.inl hk)
  unfold resume
  cases hpc : w.pc with
  | version => exact absurd hpc hp.1
  | kexinit => exact onKexinit_takes hpc t pkt
  | kexEcdhReply => exact onKexEcdhReply_takes hpc t pkt
  | newkeys => exact onNewkeys_takes hpc t pkt
  | finished => exact absurd hpc hp.2
  | _ => exact absurd (by simp [hpc, Pc.stage, Stage.Keyed]) hk

theorem versionRound_reading (expired : Bool) (hp : w.pc = .version) :
    Reading P w (versionRound P expired w) := by
  unfold versionRound
  split
  · rename_i line rest hl
    simp only
    split
    · rename_i hs
      split
      · exact .misfit hp
      · exact .hello hp hl hs
    · rename_i hs
      exact .skipLine hp hl hs
  · split
    · exact .atEnd hp (.inl rfl) (.giveUp w _) rfl
    simp only
    split
    · exact .atEnd hp (.inr rfl) (.giveUp _ _) rfl
    · exact .fill (by rw [hp]; nofun)

theorem tryParse_pc {w₁ : World} {out : Bytes} (h : tryParse P w = .got out w₁) : w₁.pc = w.pc := by
  obtain ⟨packet, rest, -, rfl⟩ := tryParse_opened h
  rfl

theorem poll_reading (expired : Bool) (w : World) : Reading P w (poll P expired w) := by
  unfold poll
  split
  · rename_i hp
    exact .stay hp
  · rename_i hp
    exact versionRound_reading expired hp
  rename_i hfin hver
  have hp : w.pc ≠ .version ∧ w.pc ≠ .finished := ⟨hver, hfin⟩
  have htakes {v : World} (hv : v.pc = w.pc) (t : ℤ) (pkt : Bytes) :
      Takes P (v.note (.received w.pc t pkt)) t pkt
        (resume P (v.note (.received v.pc t pkt)) t pkt) := by
    rw [← hv] at hp ⊢
    exact resume_takes (w := v.note (.received v.pc t pkt)) hp t pkt
  unfold recvRound
  cases hr : tryParse P w with
  | needMore =>
    simp only
    split
    · rename_i w₁ he
      split at he
      · cases he
      split at he
      · cases he
      · cases he
        exact .fill hp.2
    · rename_i t pkt w₁ he
      split at he
      · cases he
        exact .silence hp (.inl rfl) (.inl rfl) (htakes rfl 0 [])
      split at he
      · cases he
        exact .silence hp (.inr rfl) (.inr rfl) (htakes (v := (fillRx w).2) rfl (-2) [])
      · cases he
  | bad => exact .garbled hp hr (htakes rfl (-1) [])
  | got out w₁ =>
    cases out with
    | nil => exact .hollow hp hr (htakes (tryParse_pc hr) (-1) [])
    | cons b body =>
      simp only
      split
      · rename_i w₂ he
        split at he
        · rename_i hb
          cases he
          exact .ignored hp hr hb
        · cases he
      · rename_i t pkt w₂ he
        split at he
        · cases he
        · cases he
          exact .packet hp hr (htakes (tryParse_pc hr) b.toNat (b :: body))

end

end Sshd.Client

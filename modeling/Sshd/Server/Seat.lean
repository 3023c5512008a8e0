import Sshd.Server.Daemon
import Sshd.Server.Up

namespace Sshd.Server

open Lib.Octets Wire Crypto
open Relation (ReflTransGen)

variable (P : Primitives)

/-- `c'` takes the place of `c`: a new session in the same slot, or a new
connection of the same kind by the same session. -/
def Conn.Replaces (c' c : Conn) : Prop := c'.ref = c.ref ∧ (c'.link = .tcp ∨ c'.link = c.link)

/-! The connections that slot `i` has made last, by the record. -/

def noteConn (i : ℤ) (cur : Link → Option ℤ) (c : Conn) : Link → Option ℤ :=
  if c.ref = i then
    fun link ↦ if link = c.link then some c.handle else if c.link = .tcp then none else cur link
  else cur

def latest (i : ℤ) (obs : List Obs) : Link → Option ℤ :=
  (conns obs).foldl (noteConn i) fun _ ↦ none

theorem latest_congr {i : ℤ} {obs obs' : List Obs} (h : conns obs' = conns obs) :
    latest i obs' = latest i obs := by
  rw [latest, h]
  rfl

theorem foldl_noteConn_kept {i : ℤ} {c : Conn} (hi : c.ref = i) (l : List Conn)
    (cur : Link → Option ℤ) (h : ∀ c' ∈ l, ¬c'.Replaces c) :
    l.foldl (noteConn i) cur c.link = cur c.link := by
  induction l generalizing cur with
  | nil => rfl
  | cons c' l ih =>
    rw [List.foldl_cons, ih _ fun c'' hm ↦ h c'' (List.mem_cons_of_mem c' hm)]
    have hc := h c' List.mem_cons_self
    unfold noteConn
    split
    · rename_i href
      have hlink : c'.link ≠ .tcp ∧ c'.link ≠ c.link :=
        ⟨fun ht ↦ hc ⟨href.trans hi.symm, .inl ht⟩, fun hl ↦ hc ⟨href.trans hi.symm, .inr hl⟩⟩
      simp only [if_neg (Ne.symm hlink.2), if_neg hlink.1]
    · rfl

/-- A connection that no other one has replaced is the latest of its slot. -/
theorem latest_of_not_replaced {obs : List Obs} {conn : ℕ} {c : Conn}
    (hc : (conns obs)[conn]? = some c) (h : ∀ c' ∈ (conns obs).drop (conn + 1), ¬c'.Replaces c) :
    latest c.ref obs c.link = some c.handle := by
  obtain ⟨hlt, hget⟩ := List.getElem?_eq_some_iff.mp hc
  have hsplit : conns obs = (conns obs).take conn ++ c :: (conns obs).drop (conn + 1) := by
    rw [← hget, List.getElem_cons_drop, List.take_append_drop]
  rw [latest, hsplit, List.foldl_append, List.foldl_cons, foldl_noteConn_kept rfl _ _ h]
  simp [noteConn]

/-- A slot with a connection on record has a latest one. -/
theorem foldl_noteConn_some {i : ℤ} (l : List Conn) (cur : Link → Option ℤ)
    (h : (∃ c ∈ l, c.ref = i) ∨ ∃ link, cur link ≠ none) :
    ∃ link, l.foldl (noteConn i) cur link ≠ none := by
  induction l generalizing cur with
  | nil => simpa using h
  | cons c l ih =>
    refine ih _ ?_
    by_cases href : c.ref = i
    · exact .inr ⟨c.link, by simp [noteConn, href]⟩
    · rw [noteConn, if_neg href]
      obtain ⟨c', hm, hr⟩ | hcur := h
      · obtain rfl | hm := List.mem_cons.mp hm
        · exact absurd hr href
        · exact .inl ⟨c', hm, hr⟩
      · exact .inr hcur

theorem latest_of_mem {obs : List Obs} {c : Conn} (h : c ∈ conns obs) :
    latest c.ref obs ≠ fun _ ↦ none := by
  obtain ⟨link, hl⟩ := foldl_noteConn_some (conns obs) (fun _ ↦ none) (.inl ⟨c, h, rfl⟩)
  intro hn
  exact hl (congrFun hn link)

theorem conns_calm {obs os : List Obs} (h : ∀ o ∈ os, connOf o = none) :
    conns (obs ++ os) = conns obs := by
  rw [conns_append, conns, conns, List.filterMap_eq_nil_iff.mpr h, List.append_nil]

theorem Obs.Calm.connOf {o : Obs} (h : o.Calm) : connOf o = none := by
  cases o <;> first | exact h.elim | rfl

theorem conns_dropBackend (w : World) : conns (dropBackend w).obs = conns w.obs := by
  rw [dropBackend_obs, conns_calm]
  unfold dropObs
  split <;> simp [connOf]

theorem conns_dropTcp (w : World) : conns (dropTcp w).obs = conns w.obs := by
  rw [dropTcp_obs, conns_calm]
  split <;> simp [connOf]

/-! What a round of the receive loop does to the seat of a session. -/

/-- Nothing at all. -/
structure Still (w w' : World) : Prop where
  slot : w'.s.slot = w.s.slot
  tcp : w'.s.tcp = w.s.tcp
  phase : w'.s.phase = w.s.phase
  backendHandle : w'.s.backendHandle = w.s.backendHandle
  slotInUse : w'.slotInUse = w.slotInUse
  conns : conns w'.obs = conns w.obs

/-- The session may close, and while it is not closed it may connect to a
backend, which it then knows. -/
structure Sits (w w' : World) : Prop where
  slot : w'.s.slot = w.s.slot
  tcp : w'.s.tcp = w.s.tcp
  slotInUse : w'.slotInUse = w.slotInUse
  closed : w.s.phase = .closed → w'.s.phase = .closed
  conn : conns w'.obs = conns w.obs ∧
      (w'.s.phase ≠ .closed → w'.s.backendHandle = w.s.backendHandle) ∨
    w.s.phase ≠ .closed ∧
      conns w'.obs = conns w.obs ++ [⟨.backend, w'.s.backendHandle, w.s.slot⟩]

section
variable {w w₁ w' : World}

theorem Still.quiet (h : Tame w w') : Still w w' := by
  obtain ⟨os, hobs, hcalm⟩ := h.obs
  exact ⟨h.slot, h.tcp, h.phase, h.backendHandle, h.slotInUse,
    by rw [hobs, conns_calm fun o ho ↦ (hcalm o ho).connOf]⟩

theorem Still.note {o : Obs} (h : connOf o = none) : Still w (w.note o) :=
  ⟨rfl, rfl, rfl, rfl, rfl, conns_calm (by simpa using h)⟩

theorem Still.trans (h : Still w w₁) (h' : Still w₁ w') : Still w w' :=
  ⟨h'.slot.trans h.slot, h'.tcp.trans h.tcp, h'.phase.trans h.phase,
    h'.backendHandle.trans h.backendHandle, h'.slotInUse.trans h.slotInUse,
    h'.conns.trans h.conns⟩

theorem Still.adoptHash (hash : Bytes) : Still w (adoptHash w hash) := by
  refine ⟨?_, ?_, ?_, ?_, adoptHash_slotInUse w hash, ?_⟩
  iterate 4 rw [adoptHash_s]
  rw [adoptHash_obs, conns_calm (by simp [connOf])]

theorem Still.replenish (written : ℕ) : Still w (replenish P w written) := by
  have hc := replenish_control P w written
  obtain ⟨os, hobs, hos⟩ := replenish_obs P w written
  refine ⟨congrArg Control.slot hc, congrArg Control.tcp hc, congrArg Control.phase hc,
    congrArg Control.backendHandle hc, replenish_slotInUse P w written, ?_⟩
  rw [hobs, conns_calm]
  intro o ho
  obtain ⟨_, rfl⟩ | ⟨_, rfl, _⟩ | ⟨_, _, _, rfl⟩ := hos o ho <;> rfl

theorem Still.send (payload : Bytes) : Still w (sendPacket P w payload) := by
  refine ⟨?_, ?_, ?_, ?_, sendPacket_slotInUse P w payload, ?_⟩
  iterate 4 rw [sendPacket_s]
  rw [sendPacket_obs, conns_calm]
  intro o ho
  obtain ⟨_, rfl⟩ | ⟨_, rfl, _⟩ | ⟨_, _, _, rfl⟩ := mem_sendObs P ho <;> rfl

theorem Still.sits (h : Still w w') : Sits w w' :=
  ⟨h.slot, h.tcp, h.slotInUse, fun hp ↦ h.phase.trans hp, .inl ⟨h.conns, fun _ ↦ h.backendHandle⟩⟩

/-- A session that closes, or moves on from another phase. -/
theorem Sits.phase {f : Session → Session} (hp : w.s.phase ≠ .closed ∨ (f w.s).phase = .closed)
    (hs : (f w.s).slot = w.s.slot) (ht : (f w.s).tcp = w.s.tcp)
    (hb : (f w.s).backendHandle = w.s.backendHandle) : Sits w (w.modify f) :=
  ⟨hs, ht, rfl, fun hc ↦ hp.elim (fun hn ↦ absurd hc hn) id, .inl ⟨rfl, fun _ ↦ hb⟩⟩

theorem Sits.after (h : Sits w₁ w') (hs : Still w w₁) : Sits w w' where
  slot := h.slot.trans hs.slot
  tcp := h.tcp.trans hs.tcp
  slotInUse := h.slotInUse.trans hs.slotInUse
  closed hc := h.closed (hs.phase.trans hc)
  conn := by
    obtain ⟨hn, hb⟩ | ⟨hn, hc⟩ := h.conn
    · exact .inl ⟨hn.trans hs.conns, fun hp ↦ (hb hp).trans hs.backendHandle⟩
    · exact .inr ⟨hs.phase ▸ hn, by rw [hc, hs.conns, hs.slot]⟩

theorem Sits.still (h : Sits w w₁) (hs : Still w₁ w') : Sits w w' where
  slot := hs.slot.trans h.slot
  tcp := hs.tcp.trans h.tcp
  slotInUse := hs.slotInUse.trans h.slotInUse
  closed hc := hs.phase.trans (h.closed hc)
  conn := by
    obtain ⟨hn, hb⟩ | ⟨hn, hc⟩ := h.conn
    · exact .inl ⟨hs.conns.trans hn, fun hp ↦ hs.backendHandle.trans (hb (hs.phase ▸ hp))⟩
    · exact .inr ⟨hn, by rw [hs.conns, hc, hs.backendHandle]⟩

theorem Sits.connectBackend (b : Backend) (hp : w.s.phase ≠ .closed) :
    Sits w (connectBackend w b w.s.slot) :=
  ⟨rfl, rfl, rfl, fun hc ↦ absurd hc hp, .inr ⟨hp, conns_append w.obs _⟩⟩

/-- The end of a session, whatever became of its backend. -/
theorem Sits.shut (hs : w'.s.slot = w.s.slot) (ht : w'.s.tcp = w.s.tcp)
    (hu : w'.slotInUse = w.slotInUse) (hc : conns w'.obs = conns w.obs)
    (hp : w'.s.phase = .closed) : Sits w w' :=
  ⟨hs, ht, hu, fun _ ↦ hp, .inl ⟨hc, fun hn ↦ absurd hp hn⟩⟩

theorem Sits.hangUp (h : Quiet P w w₁) : Sits w (hangUp w₁) := by
  have hs := Still.quiet h.toTame
  have hc : conns (Server.hangUp w₁).obs = conns w₁.obs := conns_calm (by simp [connOf])
  exact .shut hs.slot hs.tcp hs.slotInUse (hc.trans hs.conns) rfl

theorem Sits.outcome {payload : Bytes} (hp : w.s.phase ≠ .closed)
    (ho : Outcome P w.s.slot w payload w') : Sits w w' := by
  cases ho with
  | quiet hq => exact (Still.quiet hq.toTame).sits
  | hangUp hq => exact .hangUp P hq
  | kexinit => exact .phase (.inl hp) rfl rfl rfl
  | @exchange w₁ w₂ _ _ hash hq hq' =>
    have hs := (Still.quiet hq.toTame).trans ((Still.adoptHash hash).trans (.quiet hq'.toTame))
    have hc : conns (switchOutbound P w₂).obs = conns w₂.obs := conns_calm (by simp [connOf])
    exact ⟨hs.slot, hs.tcp, hs.slotInUse, fun hcl ↦ absurd hcl hp,
      .inl ⟨hc.trans hs.conns, fun _ ↦ hs.backendHandle⟩⟩
  | newkeys =>
    change Sits w (w.modify fun s ↦ { s with encInbound := true, phase := .auth })
    exact .phase (.inl hp) rfl rfl rfl
  | success _ _ hq =>
    have hs := Still.quiet hq.toTame
    exact (Sits.phase (.inl (hs.phase ▸ hp)) rfl rfl rfl).after hs
  | chanOpen _ _ peerCh peerWin peerMax =>
    have hs : Still w (openChannel w peerCh peerWin peerMax) := ⟨rfl, rfl, rfl, rfl, rfl, rfl⟩
    exact (hs.trans (.send P _)).sits
  | backend _ b _ hq hq' =>
    have hs := Still.quiet hq.toTame
    have hc := Sits.connectBackend b (hs.phase ▸ hp)
    rw [hs.slot] at hc
    exact (hc.still (.quiet hq'.toTame)).after hs
  | exec _ b _ _ hq hq' _ =>
    have hs := Still.quiet hq.toTame
    have hc := Sits.connectBackend b (hs.phase ▸ hp)
    rw [hs.slot] at hc
    exact (hc.still ((Still.quiet hq'.toTame).trans (.note rfl))).after hs
  | data _ d _ _ => exact ((Still.note rfl).trans (.replenish P _)).sits
  | chanClose _ hq =>
    have hs := Still.quiet hq.toTame
    have hd := dropBackend_s w
    refine .shut (hs.slot.trans (by rw [hd])) (hs.tcp.trans (by rw [hd]))
      (hs.slotInUse.trans (dropBackend_slotInUse w)) (hs.conns.trans ?_) rfl
    exact conns_dropBackend w

theorem Sits.round (h : Round P w w') : Sits w w' := by
  cases h with
  | quiet hq => exact (Still.quiet hq.toTame).sits
  | versionDone hp hq =>
    have hs := Still.quiet hq.toTame
    refine (Sits.phase (.inl ?_) rfl rfl rfl).after hs
    rw [hs.phase, hp]
    nofun
  | hangUp hq => exact .hangUp P hq
  | @packet w₁ payload hp hw =>
    have hs : Still w (w₁.note (.dispatch w₁.s payload)) := by
      obtain ⟨packet, rest, -, rfl⟩ := parsePacket_got P hw
      exact ⟨rfl, rfl, rfl, rfl, rfl, (conns_calm (by simp [connOf])).trans (conns_calm (by simp [connOf]))⟩
    have ho := dispatchPacket_outcome P w₁ payload w₁.s.slot
    exact (Sits.outcome P (hs.phase ▸ hp.1) ho).after hs

end

/-! The session in slot `i`. -/

/-- What every step of the session keeps: what is on record as its latest
connections is what it has, and nothing of the other slots is touched. -/
structure Seat (i : ℤ) (w₀ w : World) : Prop where
  up : Up w.s
  slot : w.s.slot = i ∨ w.s.slot < 0
  inUse : w.slotInUse i = decide (0 ≤ w.s.slot)
  tcp : ∀ h, latest i w.obs .tcp = some h → w.s.tcp = h ∨ w.s.tcp < 0
  others : ∀ j ≠ i, latest j w.obs = latest j w₀.obs ∧ w.slotInUse j = w₀.slotInUse j

/-- What holds between two events. -/
structure Seated (i : ℤ) (w : World) : Prop where
  up : Up w.s
  slot : w.s.slot = i ∨ w.s.slot < 0
  inUse : w.slotInUse i = decide (0 ≤ w.s.slot)
  tcp : ∀ h, latest i w.obs .tcp = some h → w.s.tcp = h ∨ w.s.tcp < 0
  gone : w.s.phase = .closed → w.s.slot < 0
  backend : w.s.phase ≠ .closed →
    ∀ h, latest i w.obs .backend = some h → w.s.backendHandle = h

section
variable {i : ℤ} {w₀ w w' : World}

theorem latest_backend {obs obs' : List Obs} {h : ℤ}
    (hc : conns obs' = conns obs ++ [⟨.backend, h, i⟩]) :
    latest i obs' .tcp = latest i obs .tcp ∧ latest i obs' .backend = some h ∧
      ∀ j ≠ i, latest j obs' = latest j obs := by
  unfold latest
  rw [hc]
  simp only [List.foldl_append, List.foldl_cons, List.foldl_nil]
  refine ⟨by simp [noteConn], by simp [noteConn], fun j hj ↦ if_neg (Ne.symm hj)⟩

theorem Seat.sits (h : Seat i w₀ w) (hs : Sits w w') (hup : Up w'.s) : Seat i w₀ w' where
  up := hup
  slot := hs.slot ▸ h.slot
  inUse := by rw [hs.slotInUse, hs.slot, h.inUse]
  tcp := by
    rw [hs.tcp]
    obtain ⟨hc, -⟩ | ⟨hp, hc⟩ := hs.conn
    · rw [latest_congr hc]
      exact h.tcp
    · have hslot : w.s.slot = i := h.slot.resolve_right fun hn ↦ hp (h.up.slotted hn).1
      rw [hslot] at hc
      rw [(latest_backend hc).1]
      exact h.tcp
  others j hj := by
    rw [hs.slotInUse]
    obtain ⟨hc, -⟩ | ⟨hp, hc⟩ := hs.conn
    · rw [latest_congr hc]
      exact h.others j hj
    · have hslot : w.s.slot = i := h.slot.resolve_right fun hn ↦ hp (h.up.slotted hn).1
      rw [hslot] at hc
      rw [(latest_backend hc).2.2 j hj]
      exact h.others j hj

theorem Seat.keep (h : Seat i w₀ w) (hup : Up w'.s) (hs : w'.s.slot = w.s.slot)
    (ht : w'.s.tcp = w.s.tcp ∨ w'.s.tcp < 0) (hu : w'.slotInUse = w.slotInUse)
    (hc : conns w'.obs = conns w.obs) : Seat i w₀ w' where
  up := hup
  slot := hs ▸ h.slot
  inUse := by rw [hu, hs, h.inUse]
  tcp a ha := by
    rw [latest_congr hc] at ha
    obtain ht | ht := ht
    · rw [ht]
      exact h.tcp a ha
    · exact .inr ht
  others j hj := by
    rw [hu, latest_congr hc]
    exact h.others j hj

theorem Seat.freeSlot (h : Seat i w₀ w) (hup : Up (freeSlot w).s) (hi : 0 ≤ i ∧ i < sshdMaxSessions) :
    Seat i w₀ (freeSlot w) := by
  by_cases hs : 0 ≤ w.s.slot
  · have hslot : w.s.slot = i := h.slot.resolve_right (not_lt.mpr hs)
    have hw : Server.freeSlot w =
        { w with slotInUse := Function.update w.slotInUse i false, s := { w.s with slot := -1 } } := by
      rw [Server.freeSlot, if_pos hs, sshdSlotFree, hslot, if_pos hi]
      rfl
    rw [hw] at hup ⊢
    refine ⟨hup, .inr (Int.negSucc_lt_zero 0), Function.update_self .., h.tcp, fun j hj ↦ ?_⟩
    have hne : Function.update w.slotInUse i false j = w.slotInUse j := Function.update_of_ne hj ..
    exact ⟨(h.others j hj).1, hne.trans (h.others j hj).2⟩
  · rw [Server.freeSlot, if_neg hs]
    exact h

theorem Seat.step (h : Seat i w₀ w) (hi : 0 ≤ i ∧ i < sshdMaxSessions) (hm : Move P w w') :
    Seat i w₀ w' := by
  have hup := h.up.step P hm
  cases hm with
  | quiet hq => exact h.sits (.round P (.quiet hq)) hup
  | versionDone hp hq => exact h.sits (.round P (.versionDone hp hq)) hup
  | hangUp hq => exact h.sits (.round P (.hangUp hq)) hup
  | packet hp hw => exact h.sits (.round P (.packet hp hw)) hup
  | dropBackend =>
    have hs := dropBackend_s w
    exact h.keep hup (by rw [hs]) (.inl (by rw [hs])) (dropBackend_slotInUse w)
      (conns_dropBackend w)
  | chanShut => exact h.keep hup rfl (.inl rfl) rfl rfl
  | teardown =>
    have hs := dropTcp_s w
    refine h.keep hup ?_ (.inr ?_) (dropTcp_slotInUse w) (conns_dropTcp w)
    · change (dropTcp w).s.slot = w.s.slot
      rw [hs]
    · change (dropTcp w).s.tcp < 0
      rw [hs]
      simp only
      split <;> omega
  | freeSlot => exact h.freeSlot hup hi

theorem Seat.moves (h : Seat i w₀ w) (hi : 0 ≤ i ∧ i < sshdMaxSessions)
    (hm : ReflTransGen (Move P) w w') : Seat i w₀ w' := by
  induction hm with
  | refl => exact h
  | tail _ hs ih => exact ih.step P hi hs

theorem Seated.seat (h : Seated i w) : Seat i w w :=
  ⟨h.up, h.slot, h.inUse, h.tcp, fun _ _ ↦ ⟨rfl, rfl⟩⟩

theorem sessionClose_closed (w : World) :
    (sessionClose w).s.phase = .closed ∧ (sessionClose w).s.slot < 0 := by
  by_cases hc : w.s.phase = .closed ∧ w.s.slot < 0
  · rw [sessionClose, if_pos hc]
    exact hc
  · rw [sessionClose_eq hc, freeSlot_s]
    refine ⟨rfl, ?_⟩
    simp only
    split <;> omega

/-- While a session is not closed, the rounds of the receive loop keep its
backend known. -/
theorem backend_rounds (h : Seat i w₀ w) (hi : 0 ≤ i ∧ i < sshdMaxSessions)
    (hb : w.s.phase ≠ .closed → ∀ a, latest i w.obs .backend = some a → w.s.backendHandle = a)
    (hr : ReflTransGen (Round P) w w') :
    w'.s.phase ≠ .closed → ∀ a, latest i w'.obs .backend = some a → w'.s.backendHandle = a := by
  have hmoves {a b : World} (hab : ReflTransGen (Round P) a b) : ReflTransGen (Move P) a b :=
    ReflTransGen.mono (fun _ _ ↦ Round.move P) _ _ hab
  induction hr with
  | refl => exact hb
  | @tail w₁ w₂ hpre hlast ih =>
    have hseat := h.moves P hi (hmoves hpre)
    have hs := Sits.round P hlast
    intro hp a ha
    obtain ⟨hc, hh⟩ | ⟨hn, hc⟩ := hs.conn
    · rw [latest_congr hc] at ha
      exact (hh hp).trans (ih (fun hcl ↦ hp (hs.closed hcl)) a ha)
    · rw [hseat.slot.resolve_right fun hneg ↦ hn (hseat.up.slotted hneg).1] at hc
      rw [(latest_backend hc).2.1] at ha
      exact Option.some.inj ha

theorem Seated.ends (h : Seated i w) (hi : 0 ≤ i ∧ i < sshdMaxSessions) (he : Ends P w w') :
    Seated i w' ∧ ∀ j ≠ i, latest j w'.obs = latest j w.obs ∧ w'.slotInUse j = w.slotInUse j := by
  have hseat := h.seat.moves P hi he.moves
  refine ⟨⟨hseat.up, hseat.slot, hseat.inUse, hseat.tcp, ?_, ?_⟩, hseat.others⟩
  · obtain hq | ⟨-, hn⟩ | ⟨w₁, -, rfl⟩ := he
    · rw [hq.phase, hq.slot]
      exact h.gone
    · exact fun hp ↦ absurd hp hn
    · exact fun _ ↦ (sessionClose_closed w₁).2
  · obtain hq | ⟨hr, -⟩ | ⟨w₁, -, rfl⟩ := he
    · exact backend_rounds P h.seat hi h.backend (.single (.quiet hq))
    · exact backend_rounds P h.seat hi h.backend hr
    · exact fun hn ↦ absurd (sessionClose_closed w₁).1 hn

theorem conns_accept (i : ℤ) (w : World) (tcp : ℤ) :
    conns (onTcpConnect i w tcp).obs = conns w.obs ++ [⟨.tcp, tcp, i⟩] :=
  (Still.quiet (onTcpConnect_tame i w tcp)).conns.trans (conns_append w.obs _)

/-- A session that has just been accepted. -/
theorem seated_accept (hi : 0 ≤ i) (w : World) (tcp : ℕ) :
    Seated i (onTcpConnect i w tcp) ∧
      ∀ j ≠ i, latest j (onTcpConnect i w tcp).obs = latest j w.obs ∧
        (onTcpConnect i w tcp).slotInUse j = w.slotInUse j := by
  have hs := Still.quiet (onTcpConnect_tame i w tcp)
  have hc := conns_accept i w tcp
  have hlatest : latest i (onTcpConnect i w tcp).obs .tcp = some (tcp : ℤ) ∧
      latest i (onTcpConnect i w tcp).obs .backend = none := by
    unfold latest
    rw [hc]
    simp [noteConn]
  refine ⟨⟨?_, .inl hs.slot, ?_, ?_, ?_, ?_⟩, ?_⟩
  · refine Up.quiet ?_ (onTcpConnect_tame i w tcp)
    exact ⟨fun _ ↦ Int.natCast_nonneg tcp, fun h ↦ absurd hi (not_le.mpr h)⟩
  · rw [hs.slotInUse, hs.slot]
    exact (Function.update_self ..).trans (decide_eq_true hi).symm
  · intro a ha
    rw [hlatest.1] at ha
    exact .inl (hs.tcp.trans (Option.some.inj ha))
  · intro hp
    cases hs.phase.symm.trans hp
  · intro _ a ha
    rw [hlatest.2] at ha
    cases ha
  · intro j hj
    refine ⟨?_, ?_⟩
    · unfold latest
      rw [hc, List.foldl_append]
      exact if_neg (Ne.symm hj)
    · rw [hs.slotInUse]
      exact Function.update_of_ne hj ..

end

end Sshd.Server

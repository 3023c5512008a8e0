import Mathlib.Data.List.GetD
import Mathlib.Data.List.TakeDrop

namespace Sshd.Lib.Keystream

/-! Key material of any length out of a hash of fixed size. Every block is
hashed from all the blocks in front of it; the first one, which has none, from
a seed. -/

variable {α : Type} (hash : List α → List α) (base seed : List α)

/-- The first blocks, one behind the other. -/
def blocks : ℕ → List α
  | 0 => []
  | n + 1 => blocks n ++ hash (base ++ if n = 0 then seed else blocks n)

/-- The block behind the first `n` ones. -/
def block (n : ℕ) : List α := hash (base ++ if n = 0 then seed else blocks hash base seed n)

/-- The bytes of all the blocks. -/
def stream [Inhabited α] (size i : ℕ) : α := (block hash base seed (i / size)).getD (i % size) default

/-- The loop that fills a buffer of `outLen` bytes; `out` holds what it has. -/
def fill (size outLen : ℕ) : ℕ → Bool → List α → List α
  | 0, _, out => out
  | fuel + 1, first, out =>
    if out.length < outLen then
      let blk := hash (base ++ if first then seed else out)
      fill size outLen fuel false (out ++ blk.take (min size (outLen - out.length)))
    else out

variable {hash base seed} {size : ℕ}

theorem blocks_length (hsize : ∀ m, (hash m).length = size) (n : ℕ) :
    (blocks hash base seed n).length = size * n := by
  induction n with
  | zero => rfl
  | succ n ih => rw [blocks, List.length_append, ih, hsize, Nat.mul_succ]

theorem blocks_eq_map [Inhabited α] (hsize : ∀ m, (hash m).length = size) (hpos : 0 < size)
    (n : ℕ) :
    blocks hash base seed n = (List.range (size * n)).map (stream hash base seed size) := by
  induction n with
  | zero => rfl
  | succ n ih =>
    have hlast : block hash base seed n =
        (List.range size).map fun i ↦ stream hash base seed size (size * n + i) := by
      refine List.ext_getElem (by rw [block, hsize, List.length_map, List.length_range]) ?_
      intro i hi hi'
      rw [block, hsize] at hi
      have hdiv : (size * n + i) / size = n := by
        rw [Nat.mul_add_div hpos, Nat.div_eq_of_lt hi, Nat.add_zero]
      have hmod : (size * n + i) % size = i := by
        rw [Nat.mul_add_mod, Nat.mod_eq_of_lt hi]
      simp only [List.getElem_map, List.getElem_range, stream, hdiv, hmod]
      exact (List.getD_eq_getElem _ _ _).symm
    rw [Nat.mul_succ, List.range_add, List.map_append, ← ih, List.map_map]
    exact congrArg (blocks hash base seed n ++ ·) hlast

theorem fill_full {outLen : ℕ} {out : List α} (h : out.length = outLen) (fuel : ℕ) (first : Bool) :
    fill hash base seed size outLen fuel first out = out := by
  cases fuel with
  | zero => rfl
  | succ fuel => rw [fill, if_neg (by omega)]

/-- The loop goes on from whole blocks, as long as they fit. -/
theorem fill_blocks [Inhabited α] (hsize : ∀ m, (hash m).length = size) (hpos : 0 < size)
    {outLen n fuel : ℕ} (hn : size * n ≤ outLen) (hfuel : outLen ≤ size * n + fuel) :
    fill hash base seed size outLen fuel (decide (n = 0)) (blocks hash base seed n) =
      (List.range outLen).map (stream hash base seed size) := by
  induction fuel generalizing n with
  | zero =>
    obtain rfl : outLen = size * n := by omega
    exact blocks_eq_map hsize hpos n
  | succ fuel ih =>
    have hlen : (blocks hash base seed n).length = size * n := blocks_length hsize n
    by_cases hfull : size * n = outLen
    · rw [fill_full (hlen.trans hfull), blocks_eq_map hsize hpos, hfull]
    have hnext : size * (n + 1) = size * n + size := Nat.mul_succ size n
    rw [fill, if_pos (by omega), hlen]
    simp only [decide_eq_true_eq]
    change fill hash base seed size outLen fuel false
      (blocks hash base seed n ++ (block hash base seed n).take _) = _
    have hsuf : blocks hash base seed (n + 1) =
        blocks hash base seed n ++ block hash base seed n := rfl
    have hblock : (block hash base seed n).length = size := hsize _
    by_cases hfit : size ≤ outLen - size * n
    · rw [Nat.min_eq_left hfit, List.take_of_length_le (Nat.le_of_eq hblock), ← hsuf]
      exact ih (n := n + 1) (by omega) (by omega)
    · rw [Nat.min_eq_right (by omega)]
      -- the last block is cut off at the end of the buffer
      have hcut : blocks hash base seed n ++ (block hash base seed n).take (outLen - size * n) =
          (blocks hash base seed (n + 1)).take outLen := by
        have hle : (blocks hash base seed n).length ≤ outLen := by omega
        rw [hsuf, List.take_append, List.take_of_length_le hle, hlen]
      have htake : ((blocks hash base seed (n + 1)).take outLen).length = outLen := by
        rw [List.length_take, blocks_length hsize]
        omega
      rw [hcut, fill_full htake, blocks_eq_map hsize hpos, ← List.map_take, List.take_range,
        Nat.min_eq_left (by omega)]

theorem fill_eq [Inhabited α] (hsize : ∀ m, (hash m).length = size) (hpos : 0 < size)
    (outLen : ℕ) :
    fill hash base seed size outLen outLen true [] =
      (List.range outLen).map (stream hash base seed size) :=
  fill_blocks (n := 0) hsize hpos (Nat.zero_le _) (by omega)

end Sshd.Lib.Keystream

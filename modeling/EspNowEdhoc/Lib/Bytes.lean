import Mathlib.Data.Vector.Basic

/-!
# Fixed byte arrays and little-endian words

* `Bytes n`: an array of `n` bytes; `zeroed`, `fill` (a zeroed array with bytes copied to its
  front), `copyAt` (a copy into a slice, which needs the slice to lie inside the array),
  `copyFromSlice` (the same, checked).
* **`toList_copyAt`**: what a copy behind a known front leaves.
-/

/-- An array of `n` bytes. -/
abbrev Bytes (n : ℕ) : Type := List.Vector UInt8 n

namespace Bytes

variable {n : ℕ}

/-- All bytes `0`. -/
def zeroed (n : ℕ) : Bytes n := ⟨List.replicate n 0, List.length_replicate⟩

/-- A zeroed array with the bytes `l` copied to its front. -/
def fill (n : ℕ) (l : List UInt8) : Bytes n :=
  ⟨(l ++ List.replicate n 0).take n, by simp⟩

theorem toList_fill {l : List UInt8} (hl : l.length ≤ n) :
    (fill n l).toList = l ++ List.replicate (n - l.length) 0 := by
  change (l ++ List.replicate n 0).take n = _
  rw [List.take_append, List.take_of_length_le hl, List.take_replicate]
  congr 2
  omega

theorem take_toList_fill {l : List UInt8} (hl : l.length ≤ n) :
    (fill n l).toList.take l.length = l := by
  rw [toList_fill hl, List.take_left]

theorem fill_toList_append (b : Bytes n) (l : List UInt8) : fill n (b.toList ++ l) = b := by
  apply Subtype.ext
  change ((b.toList ++ l) ++ List.replicate n 0).take n = b.toList
  rw [List.append_assoc, List.take_left' b.toList_length]

theorem fill_append_replicate (l : List UInt8) (k : ℕ) :
    fill n (l ++ List.replicate k 0) = fill n l := by
  apply Subtype.ext
  change ((l ++ List.replicate k 0) ++ List.replicate n 0).take n = (l ++ List.replicate n 0).take n
  rw [List.append_assoc, List.replicate_append_replicate, List.take_append, List.take_append,
    List.take_replicate, List.take_replicate]
  congr 2
  omega

theorem get_fill (l : List UInt8) (i : Fin n) : (fill n l).get i = l.getD i 0 := by
  have hi : i.val < (l ++ List.replicate n 0).length := by
    rw [List.length_append, List.length_replicate]
    omega
  have hget : (fill n l).get i = (l ++ List.replicate n 0)[i.val] := List.getElem_take
  rw [hget, List.getD_eq_getElem?_getD]
  by_cases h : i.val < l.length
  · rw [List.getElem_append_left h, List.getElem?_eq_getElem h, Option.getD_some]
  · rw [List.getElem_append_right (by omega), List.getElem_replicate,
      List.getElem?_eq_none (by omega), Option.getD_none]

theorem take_toList (b : Bytes n) {k : ℕ} (hk : k ≤ n) :
    b.toList.take k = List.ofFn fun i : Fin k => b.get ⟨i, i.isLt.trans_le hk⟩ := by
  refine List.ext_getElem ?_ fun i h₁ h₂ => ?_
  · rw [List.length_take, List.Vector.toList_length, List.length_ofFn, Nat.min_eq_left hk]
  · rw [List.getElem_take, List.getElem_ofFn]
    rfl

theorem toList_eq_map_getD (b : Bytes n) :
    b.toList = (List.range n).map fun i => b.toList.getD i 0 := by
  refine List.ext_getElem (by simp) fun i h _ => ?_
  rw [List.getElem_map, List.getElem_range, List.getD_eq_getElem?_getD, List.getElem?_eq_getElem h,
    Option.getD_some]

/-- Copy `src` over the bytes `lo .. lo + src.length` of `dst`. -/
def copyAt (dst : Bytes n) (lo : ℕ) (src : List UInt8) (h : lo + src.length ≤ n) : Bytes n :=
  ⟨dst.toList.take lo ++ src ++ dst.toList.drop (lo + src.length), by
    simp only [List.length_append, List.length_take, List.length_drop, List.Vector.toList_length]
    omega⟩

theorem toList_copyAt {dst : Bytes n} {p q src : List UInt8} {lo : ℕ} (hdst : dst.toList = p ++ q)
    (hlo : p.length = lo) (h : lo + src.length ≤ n) :
    (dst.copyAt lo src h).toList = p ++ src ++ q.drop src.length := by
  change dst.toList.take lo ++ src ++ dst.toList.drop (lo + src.length) = _
  rw [hdst, List.take_left' hlo, ← hlo, List.drop_append, List.drop_of_length_le (by omega),
    Nat.add_sub_cancel_left, List.nil_append]

/-- `dst[lo..hi].copy_from_slice(src)`, and `none` where it panics. -/
def copyFromSlice (dst : Bytes n) (lo hi : ℕ) (src : List UInt8) : Option (Bytes n) :=
  if h : hi ≤ n ∧ lo + src.length = hi then some (dst.copyAt lo src (h.2.trans_le h.1)) else none

theorem copyFromSlice_eq (dst : Bytes n) {lo hi : ℕ} {src : List UInt8} (hn : hi ≤ n)
    (hlen : lo + src.length = hi) :
    dst.copyFromSlice lo hi src = some (dst.copyAt lo src (hlen.trans_le hn)) := dif_pos ⟨hn, hlen⟩

/-- Change the byte at index `i`. -/
def modify (b : Bytes n) (i : ℕ) (f : UInt8 → UInt8) : Bytes n :=
  ⟨b.toList.modify i f, by simp⟩

theorem get_modify (b : Bytes n) (k : ℕ) (f : UInt8 → UInt8) (i : Fin n) :
    (b.modify k f).get i = if k = i then f (b.get i) else b.get i := List.getElem_modify ..

end Bytes

/-- The two bytes of a 16-bit word, low byte first. -/
def le16 (x : UInt16) : List UInt8 := [UInt8.ofNat (x.toNat % 256), UInt8.ofNat (x.toNat / 256)]

/-- The 16-bit word of two bytes, low byte first. -/
def ofLe16 (lo hi : UInt8) : UInt16 := UInt16.ofNat (lo.toNat + 256 * hi.toNat)

/-- **Writing and reading back a 16-bit word.** -/
theorem ofLe16_le16 (x : UInt16) :
    ofLe16 (UInt8.ofNat (x.toNat % 256)) (UInt8.ofNat (x.toNat / 256)) = x := by
  have hx := x.toNat_lt
  apply UInt16.toNat_inj.mp
  simp only [ofLe16, UInt16.toNat_ofNat', UInt8.toNat_ofNat']
  omega

theorem toNat_ofLe16 (lo hi : UInt8) : (ofLe16 lo hi).toNat = lo.toNat + 256 * hi.toNat := by
  have hlo := lo.toNat_lt
  have hhi := hi.toNat_lt
  simp only [ofLe16, UInt16.toNat_ofNat']
  omega

/-- **Reading and writing back a 16-bit word.** -/
theorem le16_ofLe16 (lo hi : UInt8) : le16 (ofLe16 lo hi) = [lo, hi] := by
  have hlo := lo.toNat_lt
  have hmod : (lo.toNat + 256 * hi.toNat) % 256 = lo.toNat := by omega
  have hdiv : (lo.toNat + 256 * hi.toNat) / 256 = hi.toNat := by omega
  rw [le16, toNat_ofLe16, hmod, hdiv, UInt8.ofNat_toNat, UInt8.ofNat_toNat]

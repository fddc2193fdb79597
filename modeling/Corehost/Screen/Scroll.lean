import Corehost.Screen.Lines

/-!
# Scrolling whole rows

* `scroll_slid`: scrolling rows of full width moves the rows in order, whichever
  path `scroll` takes; `WholeRows` says when these paths are taken.
-/

namespace Corehost

open Lib

namespace ScreenBuffer

variable {s : ScreenBuffer} {cp : Char32} {attr : UInt16} {dy : Int}

/-- What a scroll keeps of the buffer. -/
structure Frame (s s' : ScreenBuffer) : Prop where
  size : s'.size = s.size
  viewport : s'.viewport = s.viewport
  count : s'.rows.length = s.rows.length
  origin : s'.rowOrigin < s'.rows.length

theorem scrollRing_slid (h : s.Sized) (hdy : dy ≠ 0) :
    Slid 0 (s.size.y - 1) dy (Filled s.size.x.toNat cp attr) s.lines (s.scrollRing dy cp attr).lines ∧
      Frame s (s.scrollRing dy cp attr) := by
  obtain ⟨n, hn⟩ : ∃ n : Nat, s.size.y = n := Int.eq_ofNat_of_zero_le (by have := h.height; omega)
  have hlen : s.rows.length = n := by have := h.count; omega
  have horigin := h.origin
  have hfill : ∀ r, Filled s.size.x.toNat cp attr (s.blank cp attr r) := fun r => ⟨r, by rw [blank, h.u16_width]⟩
  -- the rows in order after the origin has moved, and the fill after that
  have hmoved (o : Nat) (first m : Nat) (ho : o < n) (hfit : first + m ≤ n) :
      ({ s with rowOrigin := o }.fillRows first m cp attr).lines = modifyRange (s.blank cp attr) (s.rows.rotate o) first m ∧
        Frame s ({ s with rowOrigin := o }.fillRows first m cp attr) := by
    have hne : ({ s with rowOrigin := o } : ScreenBuffer).rows ≠ [] := h.rows_ne
    obtain ⟨f1, f2, f3, f4⟩ := fillRows_frame (s := { s with rowOrigin := o }) cp attr (n := m) hne
    refine ⟨?_, f1, f2, f4, by rw [f3, f4]; simp only; omega⟩
    exact lines_fillRows (s := { s with rowOrigin := o }) cp attr hne (by simp only; omega)
  have hturn (k : Nat) : s.rows.rotate ((s.rowOrigin + k) % n) = s.lines.rotate k := by
    rw [lines, List.rotate_rotate, ← hlen, List.rotate_mod]
  have hll : s.lines.length = n := (length_lines s).trans hlen
  have hget {k j : Nat} (hj : j < n) : (s.lines.rotate k)[j]? = s.lines[(j + k) % n]? := by
    rw [List.getElem?_rotate (by omega), hll]
  unfold scrollRing
  simp only [hn, Int.toNat_natCast]
  by_cases hall : min dy.natAbs n = n
  · obtain ⟨hl, hframe⟩ := hmoved 0 0 n (by omega) (by omega)
    rw [if_pos hall]
    refine ⟨?_, hframe⟩
    rw [hl]
    have hout : ∀ j, j < 0 ∨ 0 + 0 + n ≤ j → (s.rows.rotate 0)[j]? = s.lines[j]? := fun j hj => by
      rw [List.getElem?_eq_none (by simp; omega), List.getElem?_eq_none (by omega)]
    rcases Int.lt_or_lt_of_ne hdy with hneg | hpos
    · have := slid_of_moved_down (a := 0) (n := 0) (k := n) (d := dy) (f := s.blank cp attr)
        hfill (by omega) (by simp) (fun j h1 h2 => by omega) hout
      simpa using this
    · have := slid_of_moved_up (a := 0) (n := 0) (k := n) (d := dy) (f := s.blank cp attr)
        hfill (by omega) (by simp) (fun j h1 h2 => by omega) hout
      simpa using this
  · have hmin : min dy.natAbs n = dy.natAbs := by omega
    rw [if_neg hall, hmin]
    generalize hk : dy.natAbs = k at hmin
    have hout : ∀ m, ∀ j, j < 0 ∨ 0 + (n - k) + k ≤ j → (s.lines.rotate m)[j]? = s.lines[j]? := fun m j hj => by
      rw [List.getElem?_eq_none (by simp; omega), List.getElem?_eq_none (by omega)]
    split
    · obtain ⟨hl, hframe⟩ := hmoved ((s.rowOrigin + k) % n) (n - k) k (Nat.mod_lt _ (by omega)) (by omega)
      refine ⟨?_, hframe⟩
      rw [hl, hturn]
      have := slid_of_moved_down (a := 0) (n := n - k) (k := k) (d := dy) (f := s.blank cp attr)
        hfill (by omega) (by simp)
        (fun j _ h2 => by rw [hget (by omega), Nat.mod_eq_of_lt (by omega)]) (hout k)
      rw [Nat.zero_add] at this
      simpa [show ((n - k : Nat) : Int) + k - 1 = (n : Int) - 1 by omega] using this
    · obtain ⟨hl, hframe⟩ := hmoved ((s.rowOrigin + n - k) % n) 0 k (Nat.mod_lt _ (by omega)) (by omega)
      refine ⟨?_, hframe⟩
      rw [hl, show s.rowOrigin + n - k = s.rowOrigin + (n - k) by omega, hturn]
      have := slid_of_moved_up (a := 0) (n := n - k) (k := k) (d := dy) (f := s.blank cp attr)
        hfill (by omega) (by simp)
        (fun j _ h2 => by
          rw [hget (by omega), show j + k + (n - k) = j + n by omega, Nat.add_mod_right, Nat.mod_eq_of_lt (by omega)])
        (hout (n - k))
      simpa [show ((n - k : Nat) : Int) + k - 1 = (n : Int) - 1 by omega] using this

theorem scrollRows_slid (cp : Char32) (attr : UInt16) (h : s.Sized) (h0 : s.rowOrigin = 0) {top bottom : Nat} (htb : top ≤ bottom)
    (hb : bottom < s.rows.length) (hdy : dy ≠ 0) :
    Slid top bottom dy (Filled s.size.x.toNat cp attr) s.lines (s.scrollRows top bottom dy cp attr).lines ∧
      Frame s (s.scrollRows top bottom dy cp attr) := by
  have hfill : ∀ r, Filled s.size.x.toNat cp attr (s.blank cp attr r) := fun r => ⟨r, by rw [blank, h.u16_width]⟩
  rw [lines_of_origin h0]
  obtain ⟨k, m, hk, hkm, hcount⟩ : ∃ k m, 0 < k ∧ top + m + k = bottom + 1 ∧ min dy.natAbs (bottom - top + 1) = k :=
    ⟨min dy.natAbs (bottom - top + 1), bottom - top + 1 - min dy.natAbs (bottom - top + 1), by omega, by omega, rfl⟩
  -- the rows after they have been moved, and the fill after that
  have hmoved (rows : List ScreenBufferRow) (first : Nat) (hl : rows.length = s.rows.length) (hfit : first + k ≤ rows.length) :
      ({ s with rows := rows }.fillRows first k cp attr).lines = modifyRange (s.blank cp attr) rows first k ∧
        Frame s ({ s with rows := rows }.fillRows first k cp attr) := by
    have hpos : 0 < rows.length := by omega
    have hne : ({ s with rows := rows } : ScreenBuffer).rows ≠ [] := List.length_pos_iff.mp hpos
    obtain ⟨f1, f2, f3, f4⟩ := fillRows_frame (s := { s with rows := rows }) cp attr (n := k) hne
    refine ⟨?_, f1, f2, f4.trans hl, by rw [f3.trans h0, f4]; exact hpos⟩
    rw [lines_fillRows (s := { s with rows := rows }) cp attr hne hfit, lines_of_origin (s := { s with rows := rows }) h0]
  have hrange : (top : Int) + m + k - 1 = bottom := by omega
  unfold scrollRows
  simp only [hcount]
  rw [show bottom - top + 1 - k = m by omega, show bottom + 1 - k = top + m by omega,
    show bottom - top + 1 - 1 = bottom - top by omega]
  split
  · obtain ⟨rows, hrows⟩ : ∃ rows, rows = if k = 1 then
        (moveForward ScreenBufferRow.movedFrom (s.rows.set top (s.rows.getD top {}).movedFrom) top 1 (bottom - top)).set bottom
          (s.rows.getD top {}) else moveForward ScreenBufferRow.movedFrom s.rows top k m := ⟨_, rfl⟩
    have hfacts : rows.length = s.rows.length ∧ ∀ j, (j < top + m ∨ top + m + k ≤ j) →
        rows[j]? = if top ≤ j ∧ j < top + m then s.rows[j + k]? else s.rows[j]? := by
      rw [hrows]
      split
      · rename_i h1
        refine ⟨by rw [List.length_set, length_moveForward, List.length_set], fun j hj => ?_⟩
        rw [List.getElem?_set_ne (by omega), show bottom - top = m by omega,
          getElem?_moveForward (by omega) (by rw [List.length_set]; omega) (by omega)]
        split
        · rw [List.getElem?_set_ne (by omega), h1]
        · rw [List.getElem?_set_ne (by omega)]
      · exact ⟨length_moveForward, fun j hj => getElem?_moveForward hk (by omega) hj⟩
    obtain ⟨hl, hframe⟩ := hmoved rows (top + m) hfacts.1 (by omega)
    rw [← hrows]
    refine ⟨?_, hframe⟩
    rw [hl, ← hrange]
    exact slid_of_moved_down hfill (by omega) hfacts.1 (fun j h1 h2 => by rw [hfacts.2 j (by omega), if_pos ⟨h1, h2⟩])
      fun j hj => by rw [hfacts.2 j (by omega), if_neg (by omega)]
  · obtain ⟨rows, hrows⟩ : ∃ rows, rows = if k = 1 then
        (moveBackward ScreenBufferRow.movedFrom (s.rows.set bottom (s.rows.getD bottom {}).movedFrom)
          top 1 (bottom - top)).set top
          (s.rows.getD bottom {}) else moveBackward ScreenBufferRow.movedFrom s.rows top k m := ⟨_, rfl⟩
    have hfacts : rows.length = s.rows.length ∧ ∀ j, (j < top ∨ top + k ≤ j) →
        rows[j]? = if top + k ≤ j ∧ j < top + k + m then s.rows[j - k]? else s.rows[j]? := by
      rw [hrows]
      split
      · rename_i h1
        refine ⟨by rw [List.length_set, length_moveBackward, List.length_set], fun j hj => ?_⟩
        rw [List.getElem?_set_ne (by omega), show bottom - top = m by omega,
          getElem?_moveBackward (by omega) (by rw [List.length_set]; omega) (by omega), h1]
        split
        · rw [List.getElem?_set_ne (by omega)]
        · rw [List.getElem?_set_ne (by omega)]
      · exact ⟨length_moveBackward, fun j hj => getElem?_moveBackward hk (by omega) hj⟩
    obtain ⟨hl, hframe⟩ := hmoved rows top hfacts.1 (by omega)
    rw [← hrows]
    refine ⟨?_, hframe⟩
    rw [hl, ← hrange]
    exact slid_of_moved_up hfill (by omega) hfacts.1
      (fun j h1 h2 => by rw [hfacts.2 (j + k) (by omega), if_pos (by omega), Nat.add_sub_cancel])
      fun j hj => by rw [hfacts.2 j (by omega), if_neg (by omega)]

/-- The rows after a scroll of rows of full width. -/
theorem scroll_slid (cp : Char32) (attr : UInt16) (h : s.Sized) {sr clip : SmallRect} {useClip : Bool} (hleft : sr.left ≤ 0)
    (hright : s.size.x - 1 ≤ sr.right) (hclip : s.clipRect clip useClip = s.clampRect sr) (hdy : dy ≠ 0) :
    Slid (s.clampRect sr).top (s.clampRect sr).bottom dy (Filled s.size.x.toNat cp attr) s.lines
        (s.scroll sr clip useClip ⟨sr.left, sr.top + dy⟩ cp attr).lines ∧
      Frame s (s.scroll sr clip useClip ⟨sr.left, sr.top + dy⟩ cp attr) := by
  have hx := h.width
  have hy := h.height
  have hcount := h.count
  have hdx : sr.left - sr.left = 0 := by omega
  have hdy' : sr.top + dy - sr.top = dy := by omega
  have hl : (s.clampRect sr).left = 0 := by unfold clampRect; dsimp only; split_ifs <;> omega
  have hr : (s.clampRect sr).right = s.size.x - 1 := by unfold clampRect; dsimp only; split_ifs <;> omega
  have ht : 0 ≤ (s.clampRect sr).top := by unfold clampRect; dsimp only; split_ifs <;> omega
  have hb : (s.clampRect sr).bottom ≤ s.size.y - 1 := by unfold clampRect; dsimp only; split_ifs <;> omega
  unfold scroll
  simp only [hdx, hdy', hclip]
  generalize s.clampRect sr = r at hl hr ht hb
  obtain ⟨left, top, right, bottom⟩ := r
  simp only at hl hr ht hb
  subst hl hr
  by_cases hv : (SmallRect.mk 0 top (s.size.x - 1) bottom).isValid = false
  · simp only [if_pos hv]
    have : bottom < top := by
      simp only [SmallRect.isValid, Bool.and_eq_false_iff, decide_eq_false_iff_not] at hv
      omega
    exact ⟨slid_of_empty this, rfl, rfl, rfl, h.origin⟩
  · have htb : top ≤ bottom := by
      simp only [SmallRect.isValid, Bool.and_eq_false_iff, decide_eq_false_iff_not] at hv
      omega
    simp only [if_neg hv, ne_eq, hdy, not_false_eq_true, true_and, and_self]
    split
    · rename_i hfull
      simp only [SmallRect.mk.injEq, true_and] at hfull
      rw [hfull.1, hfull.2]
      exact scrollRing_slid h hdy
    · obtain ⟨hs, hrows, h0, hsize, hview, -⟩ := h.linearizeRows
      obtain ⟨t, rfl⟩ := Int.eq_ofNat_of_zero_le ht
      obtain ⟨b, rfl⟩ := Int.eq_ofNat_of_zero_le (show 0 ≤ bottom by omega)
      have hlen : s.linearizeRows.rows.length = s.rows.length := by rw [hrows, length_lines]
      have := scrollRows_slid cp attr hs h0 (show t ≤ b by omega) (by omega) hdy
      rw [hsize, lines_of_origin h0, hrows] at this
      rw [if_pos ⟨by rw [hsize], trivial⟩]
      obtain ⟨h1, h2⟩ := this
      exact ⟨h1, h2.size.trans hsize, h2.viewport.trans hview, h2.count.trans hlen, h2.origin⟩

/-- The clamped source is whole rows, the clip is the source, and the scroll is
vertical. -/
def WholeRows (s : ScreenBuffer) (sr clip : SmallRect) (dx dy : Int) : Prop :=
  dx = 0 ∧ dy ≠ 0 ∧ sr.left = 0 ∧ sr.right = s.size.x - 1 ∧ clip = sr

theorem WholeRows.slid (cp : Char32) (attr : UInt16) {sr clip : SmallRect} {useClip : Bool} {dest : Coord} (h : s.Sized)
    (hw : s.WholeRows (s.clampRect sr) (s.clipRect clip useClip) (dest.x - sr.left) (dest.y - sr.top)) :
    Slid (s.clampRect sr).top (s.clampRect sr).bottom (dest.y - sr.top) (Filled s.size.x.toNat cp attr) s.lines
        (s.scroll sr clip useClip dest cp attr).lines ∧
      Frame s (s.scroll sr clip useClip dest cp attr) := by
  have hx := h.width
  obtain ⟨hdx, hdy, hl, hr, hclip⟩ := hw
  have hdest : dest = ⟨sr.left, sr.top + (dest.y - sr.top)⟩ := by
    cases dest
    simp only [Coord.mk.injEq]
    dsimp only at hdx
    omega
  have hleft : sr.left ≤ 0 := by
    unfold clampRect at hl
    dsimp only at hl
    split_ifs at hl <;> omega
  have hright : s.size.x - 1 ≤ sr.right := by
    unfold clampRect at hr
    dsimp only at hr
    split_ifs at hr <;> omega
  have hs := scroll_slid cp attr h hleft hright hclip hdy
  rwa [← hdest] at hs

/-- A scroll that does not move whole rows. -/
theorem scroll_eq_scrollRect {sr clip : SmallRect} {useClip : Bool} {dest : Coord} (h : s.Sized)
    (hw : ¬ s.WholeRows (s.clampRect sr) (s.clipRect clip useClip) (dest.x - sr.left) (dest.y - sr.top)) :
    s.scroll sr clip useClip dest cp attr =
      if (s.clampRect sr).isValid = false ∨ (s.clipRect clip useClip).isValid = false then s
      else s.linearizeRows.scrollRect (s.clampRect sr) (s.clipRect clip useClip)
        (dest.x - sr.left) (dest.y - sr.top) cp attr := by
  obtain ⟨-, -, h0, hsize, -, -⟩ := h.linearizeRows
  have hring : ¬ (dest.x - sr.left = 0 ∧ dest.y - sr.top ≠ 0 ∧ s.clampRect sr = ⟨0, 0, s.size.x - 1, s.size.y - 1⟩ ∧
      s.clipRect clip useClip = ⟨0, 0, s.size.x - 1, s.size.y - 1⟩) :=
    fun ⟨h1, h2, h3, h4⟩ => hw ⟨h1, h2, by rw [h3], by rw [h3], h4.trans h3.symm⟩
  have hw' : ¬ (dest.x - sr.left = 0 ∧ dest.y - sr.top ≠ 0 ∧ (s.clampRect sr).left = 0 ∧
      (s.clampRect sr).right = s.size.x - 1 ∧ s.clipRect clip useClip = s.clampRect sr) := hw
  unfold scroll
  dsimp only
  by_cases hv : (s.clampRect sr).isValid = false
  · rw [if_pos hv, if_pos (.inl hv)]
  · by_cases hc : (s.clipRect clip useClip).isValid = false
    · rw [if_neg hv, if_pos hc, if_pos (.inr hc)]
    · rw [if_neg hv, if_neg hc, if_neg hring, hsize, if_neg hw', if_neg (not_or.mpr ⟨hv, hc⟩)]

end ScreenBuffer

end Corehost

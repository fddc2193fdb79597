import Mathlib.Data.List.Basic
import Mathlib.Tactic.Ring

/-!
# Strips of narrow and wide glyphs

A strip is a line of a character grid: a list of glyphs, each one or two
columns wide, with no gap between them. This file is about strips over any
type of characters:

* `cols`, `cells`: the columns a strip takes, and what each of them shows;
* `headTo`, `tailFrom`, `overwrite`: the strip left and right of a column,
  and the strip after a run has been written over it. A wide glyph that is
  cut leaves a blank;
* `overwrite_overwrite`: writing two runs side by side is writing their
  concatenation;
* `table`: the offsets of a strip's columns in the list of its characters,
  where the second column of a wide glyph is flagged.
-/

namespace Corehost.Lib

/-- A character and whether it takes two columns. -/
structure Glyph (α : Type*) where
  char : α
  wide : Bool
deriving DecidableEq, Repr

/-- What a column shows of its glyph. -/
inductive Half where
  | whole | lead | trail
deriving DecidableEq, Repr

namespace Glyph

variable {α : Type*}

def cols (g : Glyph α) : Nat := if g.wide then 2 else 1

@[simp] theorem cols_single (a : α) : (Glyph.mk a false).cols = 1 := by simp [cols]

@[simp] theorem cols_double (a : α) : (Glyph.mk a true).cols = 2 := by simp [cols]

theorem cols_pos (g : Glyph α) : 0 < g.cols := by unfold cols; split <;> decide

theorem cols_le (g : Glyph α) : g.cols ≤ 2 := by unfold cols; split <;> decide

/-- The columns of a glyph, left to right. -/
def cells (g : Glyph α) : List (α × Half) :=
  if g.wide then [(g.char, .lead), (g.char, .trail)] else [(g.char, .whole)]

@[simp] theorem length_cells (g : Glyph α) : g.cells.length = g.cols := by
  unfold cells cols; split <;> rfl

end Glyph

namespace Strip

variable {α : Type*}

/-- The number of columns of a strip. -/
def cols : List (Glyph α) → Nat
  | [] => 0
  | g :: gs => g.cols + cols gs

/-- The columns of a strip, left to right. -/
def cells (gs : List (Glyph α)) : List (α × Half) := gs.flatMap Glyph.cells

@[simp] theorem cols_nil : cols ([] : List (Glyph α)) = 0 := rfl

@[simp] theorem cols_cons (g : Glyph α) (gs : List (Glyph α)) : cols (g :: gs) = g.cols + cols gs := rfl

@[simp] theorem cols_append (gs hs : List (Glyph α)) : cols (gs ++ hs) = cols gs + cols hs := by
  induction gs with
  | nil => simp
  | cons g gs ih => simp only [List.cons_append, cols_cons, ih]; omega

@[simp] theorem cols_replicate_single (n : Nat) (a : α) : cols (List.replicate n (Glyph.mk a false)) = n := by
  induction n with
  | zero => rfl
  | succ n ih => simp only [List.replicate_succ, cols_cons, ih, Glyph.cols_single]; omega

@[simp] theorem cols_map_single (as : List α) : cols (as.map (Glyph.mk · false)) = as.length := by
  induction as with
  | nil => rfl
  | cons a as ih => simp only [List.map_cons, cols_cons, ih, Glyph.cols_single, List.length_cons]; omega

theorem length_le_cols (gs : List (Glyph α)) : gs.length ≤ cols gs := by
  induction gs with
  | nil => simp
  | cons g gs ih => have := g.cols_pos; simp only [List.length_cons, cols_cons]; omega

@[simp] theorem cells_nil : cells ([] : List (Glyph α)) = [] := rfl

@[simp] theorem cells_cons (g : Glyph α) (gs : List (Glyph α)) : cells (g :: gs) = g.cells ++ cells gs := rfl

@[simp] theorem cells_append (gs hs : List (Glyph α)) : cells (gs ++ hs) = cells gs ++ cells hs := by
  simp [cells]

@[simp] theorem cells_replicate_single (n : Nat) (a : α) :
    cells (List.replicate n (Glyph.mk a false)) = List.replicate n (a, Half.whole) := by
  induction n with
  | zero => rfl
  | succ n ih => rw [List.replicate_succ, cells_cons, ih]; rfl

@[simp] theorem length_cells (gs : List (Glyph α)) : (cells gs).length = cols gs := by
  induction gs with
  | nil => rfl
  | cons g gs ih => simp [ih]

/-- Every column belongs to a glyph, as its first or as its second column. -/
theorem exists_glyph_at : ∀ {gs : List (Glyph α)} {c : Nat}, c < cols gs →
    ∃ pre g post, gs = pre ++ g :: post ∧ (c = cols pre ∨ g.wide = true ∧ c = cols pre + 1)
  | g :: gs, c, h => by
    by_cases h0 : c < g.cols
    · refine ⟨[], g, gs, rfl, ?_⟩
      unfold Glyph.cols at h0
      split at h0
      · rename_i hw
        rcases (by omega : c = 0 ∨ c = 1) with rfl | rfl
        · exact .inl rfl
        · exact .inr ⟨hw, rfl⟩
      · exact .inl (by simp only [cols_nil]; omega)
    · rw [cols_cons] at h
      obtain ⟨pre, g', post, rfl, hc⟩ := exists_glyph_at (show c - g.cols < cols gs by omega)
      refine ⟨g :: pre, g', post, rfl, ?_⟩
      simp only [cols_cons]
      rcases hc with hc | ⟨hw, hc⟩
      · exact .inl (by omega)
      · exact .inr ⟨hw, by omega⟩

/-- A column of a strip, the one past its end included, either starts a glyph
or is the second column of a wide one. -/
theorem boundary_or_inside {gs : List (Glyph α)} {c : Nat} (h : c ≤ cols gs) :
    (∃ pre post, gs = pre ++ post ∧ c = cols pre) ∨
      ∃ pre a post, gs = pre ++ Glyph.mk a true :: post ∧ c = cols pre + 1 := by
  rcases Nat.lt_or_ge c (cols gs) with hlt | hge
  · obtain ⟨pre, ⟨a, w⟩, post, rfl, hc | ⟨hw, hc⟩⟩ := exists_glyph_at hlt
    · exact .inl ⟨pre, _, rfl, hc⟩
    · exact .inr ⟨pre, a, post, by rw [show w = true from hw], hc⟩
  · exact .inl ⟨gs, [], (List.append_nil gs).symm, by omega⟩

/-! ## Cutting and overwriting -/

/-- The first `c` columns. The left half of a glyph cut at `c` is a blank. -/
def headTo (b : α) : List (Glyph α) → Nat → List (Glyph α)
  | [], _ => []
  | g :: gs, c => if c = 0 then [] else if c < g.cols then [⟨b, false⟩] else g :: headTo b gs (c - g.cols)

/-- The columns from `c` on. The right half of a glyph cut at `c` is a blank. -/
def tailFrom (b : α) : List (Glyph α) → Nat → List (Glyph α)
  | [], _ => []
  | g :: gs, c => if c = 0 then g :: gs else if c < g.cols then ⟨b, false⟩ :: gs else tailFrom b gs (c - g.cols)

/-- The strip after `new` has been written from column `c` on. -/
def overwrite (b : α) (gs : List (Glyph α)) (c : Nat) (new : List (Glyph α)) : List (Glyph α) :=
  headTo b gs c ++ new ++ tailFrom b gs (c + cols new)

/-- The runs `news` written side by side from column `c` on, one after the other. -/
def overwriteEach (b : α) (gs : List (Glyph α)) (c : Nat) : List (Glyph α) → List (Glyph α)
  | [] => gs
  | g :: news => overwriteEach b (overwrite b gs c [g]) (c + g.cols) news

variable (b : α)

@[simp] theorem headTo_zero (gs : List (Glyph α)) : headTo b gs 0 = [] := by cases gs <;> simp [headTo]

@[simp] theorem tailFrom_zero (gs : List (Glyph α)) : tailFrom b gs 0 = gs := by cases gs <;> simp [tailFrom]

theorem headTo_append_add : ∀ (pre post : List (Glyph α)) (c : Nat),
    headTo b (pre ++ post) (cols pre + c) = pre ++ headTo b post c
  | [], post, c => by simp
  | g :: pre, post, c => by
    have := g.cols_pos
    simp only [List.cons_append, headTo, cols_cons]
    rw [if_neg (by omega), if_neg (by omega), show g.cols + cols pre + c - g.cols = cols pre + c by omega,
      headTo_append_add pre post c]

theorem tailFrom_append_add : ∀ (pre post : List (Glyph α)) (c : Nat),
    tailFrom b (pre ++ post) (cols pre + c) = tailFrom b post c
  | [], post, c => by simp
  | g :: pre, post, c => by
    have := g.cols_pos
    simp only [List.cons_append, tailFrom, cols_cons]
    rw [if_neg (by omega), if_neg (by omega), show g.cols + cols pre + c - g.cols = cols pre + c by omega,
      tailFrom_append_add pre post c]

theorem headTo_append (pre post : List (Glyph α)) : headTo b (pre ++ post) (cols pre) = pre := by
  simpa using headTo_append_add b pre post 0

theorem tailFrom_append (pre post : List (Glyph α)) : tailFrom b (pre ++ post) (cols pre) = post := by
  simpa using tailFrom_append_add b pre post 0

theorem headTo_inside (pre : List (Glyph α)) (a : α) (post : List (Glyph α)) :
    headTo b (pre ++ ⟨a, true⟩ :: post) (cols pre + 1) = pre ++ [⟨b, false⟩] := by
  rw [headTo_append_add]; simp [headTo]

theorem tailFrom_inside (pre : List (Glyph α)) (a : α) (post : List (Glyph α)) :
    tailFrom b (pre ++ ⟨a, true⟩ :: post) (cols pre + 1) = ⟨b, false⟩ :: post := by
  rw [tailFrom_append_add]; simp [tailFrom]

theorem tailFrom_tailFrom : ∀ (gs : List (Glyph α)) (c d : Nat),
    tailFrom b (tailFrom b gs c) d = tailFrom b gs (c + d)
  | [], c, d => by simp [tailFrom]
  | g :: gs, c, d => by
    have := g.cols_le
    by_cases h0 : c = 0
    · simp [h0]
    · by_cases h1 : c < g.cols
      · rw [show tailFrom b (g :: gs) c = ⟨b, false⟩ :: gs by simp [tailFrom, h0, h1]]
        simp only [tailFrom, Glyph.cols_single]
        rcases Nat.eq_zero_or_pos d with rfl | hd
        · simp [h0, h1]
        · rw [if_neg (by omega), if_neg (by omega), if_neg (by omega), if_neg (by omega)]
          congr 1; omega
      · rw [show tailFrom b (g :: gs) c = tailFrom b gs (c - g.cols) by simp [tailFrom, h0, h1],
          tailFrom_tailFrom gs]
        simp only [tailFrom]
        rw [if_neg (by omega), if_neg (by omega)]
        congr 1; omega

theorem cols_headTo : ∀ {gs : List (Glyph α)} {c : Nat}, c ≤ cols gs → cols (headTo b gs c) = c
  | [], c, h => by simp only [cols_nil, Nat.le_zero] at h; simp [headTo, h]
  | g :: gs, c, h => by
    have := g.cols_le
    simp only [headTo]
    split
    · simp [*]
    · split
      · simp only [cols_cons, Glyph.cols_single, cols_nil]; omega
      · simp only [cols_cons] at h ⊢
        rw [cols_headTo (by omega)]; omega

theorem cols_tailFrom : ∀ {gs : List (Glyph α)} {c : Nat}, c ≤ cols gs →
    c + cols (tailFrom b gs c) = cols gs
  | [], c, h => by simpa [tailFrom] using h
  | g :: gs, c, h => by
    have := g.cols_le
    simp only [tailFrom]
    split
    · simp [*]
    · split
      · simp only [cols_cons, Glyph.cols_single]; omega
      · simp only [cols_cons] at h ⊢
        have := cols_tailFrom (show c - g.cols ≤ cols gs by omega)
        omega

theorem cols_overwrite {gs new : List (Glyph α)} {c : Nat} (h : c + cols new ≤ cols gs) :
    cols (overwrite b gs c new) = cols gs := by
  have := cols_tailFrom b h
  simp only [overwrite, cols_append, cols_headTo b (show c ≤ cols gs by omega)]
  omega

/-- Writing over whole glyphs replaces them. -/
theorem overwrite_split (pre mid post new : List (Glyph α)) (h : cols mid = cols new) :
    overwrite b (pre ++ mid ++ post) (cols pre) new = pre ++ new ++ post := by
  unfold overwrite
  rw [← h, ← cols_append, tailFrom_append, List.append_assoc pre mid post, headTo_append]

/-- Writing a run and then a second one right after it is writing both at once. -/
theorem overwrite_overwrite {gs : List (Glyph α)} (new new' : List (Glyph α)) {c : Nat} (h : c ≤ cols gs) :
    overwrite b (overwrite b gs c new) (c + cols new) new' = overwrite b gs c (new ++ new') := by
  have hh := cols_headTo b h
  have hc : c + cols new = cols (headTo b gs c ++ new) := by rw [cols_append, hh]
  unfold overwrite
  rw [hc, headTo_append, tailFrom_append_add, tailFrom_tailFrom, ← hc, cols_append]
  simp only [List.append_assoc, Nat.add_assoc]

/-- Writing glyphs one at a time is writing them as one run. -/
theorem overwriteEach_eq : ∀ {gs : List (Glyph α)} {c : Nat} (g : Glyph α) (new : List (Glyph α)),
    c + cols (g :: new) ≤ cols gs → overwriteEach b gs c (g :: new) = overwrite b gs c (g :: new)
  | gs, c, g, [], _ => rfl
  | gs, c, g, g' :: new, h => by
    simp only [cols_cons] at h
    have hc : cols (overwrite b gs c [g]) = cols gs := cols_overwrite b (by simp only [cols_cons, cols_nil]; omega)
    rw [overwriteEach, overwriteEach_eq g' new (by rw [hc]; simp only [cols_cons]; omega)]
    have := overwrite_overwrite b [g] (g' :: new) (show c ≤ cols gs by omega)
    simpa using this

/-! ## Column by column -/

/-- The glyph at a column, and whether the column is its first or second one. -/
def halfAt (gs : List (Glyph α)) (i : Nat) : Option Half := (cells gs)[i]?.map Prod.snd

theorem getElem?_cells_pre (pre : List (Glyph α)) (g : Glyph α) (post : List (Glyph α)) {i : Nat} (hi : i < g.cols) :
    (cells (pre ++ g :: post))[cols pre + i]? = g.cells[i]? := by
  rw [cells_append, List.getElem?_append_right (by simp), length_cells, Nat.add_sub_cancel_left, cells_cons,
    List.getElem?_append_left (by simpa using hi)]

/-- A leading column is followed by another column of the strip. -/
theorem succ_lt_of_halfAt_lead {gs : List (Glyph α)} {i : Nat} (h : halfAt gs i = some .lead) : i + 1 < cols gs := by
  have hi : i < cols gs := by
    rw [← length_cells]; by_contra hge
    simp [halfAt, List.getElem?_eq_none (Nat.le_of_not_lt hge)] at h
  obtain ⟨pre, ⟨a, w⟩, post, rfl, rfl | ⟨hw, rfl⟩⟩ := exists_glyph_at hi
  · cases w
    · simp [halfAt, Glyph.cells] at h
    · simp only [cols_append, cols_cons, Glyph.cols_double]; omega
  · subst hw
    simp [halfAt, Glyph.cells] at h

/-- A strip does not start with the second column of a glyph. -/
theorem halfAt_zero_ne_trail (gs : List (Glyph α)) : halfAt gs 0 ≠ some .trail := by
  cases gs with
  | nil => simp [halfAt]
  | cons g gs =>
    obtain ⟨a, w⟩ := g
    cases w <;> simp [halfAt, Glyph.cells]

theorem getElem?_cells_headTo {gs : List (Glyph α)} {c i : Nat} (h : c ≤ cols gs) (hi : i < c) :
    (cells (headTo b gs c))[i]? =
      if i + 1 = c ∧ halfAt gs i = some .lead then some (b, .whole) else (cells gs)[i]? := by
  rcases boundary_or_inside h with ⟨pre, post, rfl, rfl⟩ | ⟨pre, a, post, rfl, rfl⟩
  · rw [headTo_append, cells_append, List.getElem?_append_left (by simpa using hi), if_neg]
    rintro ⟨hc, hl⟩
    have : halfAt pre i = some .lead := by
      rwa [halfAt, cells_append, List.getElem?_append_left (by simpa using hi)] at hl
    have := succ_lt_of_halfAt_lead this
    omega
  · rw [headTo_inside]
    rcases Nat.lt_or_ge i (cols pre) with hlt | hge
    · rw [if_neg (by omega)]
      simp only [cells_append]
      rw [List.getElem?_append_left (by simpa using hlt), List.getElem?_append_left (by simpa using hlt)]
    · obtain rfl : i = cols pre := by omega
      have h1 := getElem?_cells_pre pre ⟨b, false⟩ [] (i := 0) (by simp)
      simp only [Nat.add_zero] at h1
      rw [h1, if_pos ⟨rfl, by simp [halfAt, Glyph.cells]⟩]
      simp [Glyph.cells]

theorem getElem?_cells_tailFrom {gs : List (Glyph α)} {c : Nat} (h : c ≤ cols gs) (i : Nat) :
    (cells (tailFrom b gs c))[i]? =
      if i = 0 ∧ halfAt gs c = some .trail then some (b, .whole) else (cells gs)[c + i]? := by
  rcases boundary_or_inside h with ⟨pre, post, rfl, rfl⟩ | ⟨pre, a, post, rfl, rfl⟩
  · have hpost : ∀ j, (cells (pre ++ post))[cols pre + j]? = (cells post)[j]? := fun j => by
      rw [cells_append, List.getElem?_append_right (by simp), length_cells, Nat.add_sub_cancel_left]
    rw [tailFrom_append, hpost, if_neg]
    rintro ⟨-, ht⟩
    have := hpost 0
    rw [Nat.add_zero] at this
    exact halfAt_zero_ne_trail post (by rw [← ht, halfAt, halfAt, this])
  · rw [tailFrom_inside]
    cases i with
    | zero => rw [if_pos ⟨rfl, by simp [halfAt, Glyph.cells]⟩]; simp [Glyph.cells]
    | succ i =>
      rw [if_neg (by omega), cells_append, List.getElem?_append_right (by simp; omega), length_cells,
        show cols pre + 1 + (i + 1) - cols pre = i + 2 by omega]
      simp [Glyph.cells]

/-- A run replaces the columns it covers; outside it, only the rest of a wide
glyph that the run cuts changes, and becomes a blank. -/
theorem getElem?_cells_overwrite {gs new : List (Glyph α)} {c : Nat} (h : c + cols new ≤ cols gs) (i : Nat) :
    (cells (overwrite b gs c new))[i]? =
      if c ≤ i ∧ i < c + cols new then (cells new)[i - c]?
      else if (i + 1 = c ∧ halfAt gs i = some .lead) ∨ (i = c + cols new ∧ halfAt gs i = some .trail)
      then some (b, .whole) else (cells gs)[i]? := by
  have hc : c ≤ cols gs := by omega
  have hh : (cells (headTo b gs c)).length = c := by rw [length_cells, cols_headTo b hc]
  simp only [overwrite, cells_append]
  rcases Nat.lt_or_ge i c with hlt | hge
  · rw [List.append_assoc, List.getElem?_append_left (by omega), getElem?_cells_headTo b hc hlt,
      if_neg (show ¬(c ≤ i ∧ i < c + cols new) by omega)]
    have : i ≠ c + cols new := by omega
    simp only [this, false_and, or_false]
  · rcases Nat.lt_or_ge i (c + cols new) with hlt' | hge'
    · rw [if_pos ⟨hge, hlt'⟩, List.getElem?_append_left (by simp [hh]; omega),
        List.getElem?_append_right (by omega), hh]
    · rw [if_neg (by omega), List.getElem?_append_right (by simp [hh]; omega),
        getElem?_cells_tailFrom b h, List.length_append, hh, length_cells]
      have h1 : i + 1 ≠ c := by omega
      have h2 : i - (c + cols new) = 0 ↔ i = c + cols new := by omega
      simp only [h1, false_and, false_or, h2, Nat.add_sub_cancel' hge']
      split <;> rename_i h3 <;> split <;> rename_i h4
      · rfl
      · exact absurd ⟨h3.1, h3.1 ▸ h3.2⟩ h4
      · exact absurd ⟨h4.1, h4.1 ▸ h4.2⟩ h3
      · rfl

/-! ## Offset tables -/

/-- For each column of a strip, the index of its glyph in the list of
characters, the first glyph being at index `o`. The second column of a wide
glyph has `flag` added. -/
def table (flag : Nat) (o : Nat) : List (Glyph α) → List Nat
  | [] => []
  | g :: gs => (if g.wide then [o, o + flag] else [o]) ++ table flag (o + 1) gs

variable (f : Nat)

@[simp] theorem table_nil (o : Nat) : table f o ([] : List (Glyph α)) = [] := rfl

@[simp] theorem length_table (o : Nat) (gs : List (Glyph α)) : (table f o gs).length = cols gs := by
  induction gs generalizing o with
  | nil => rfl
  | cons g gs ih => simp only [table, List.length_append, ih, cols_cons, Glyph.cols]; split <;> rfl

theorem table_append (o : Nat) (gs hs : List (Glyph α)) :
    table f o (gs ++ hs) = table f o gs ++ table f (o + gs.length) hs := by
  induction gs generalizing o with
  | nil => rfl
  | cons g gs ih =>
    simp only [List.cons_append, table, ih, List.length_cons, List.append_assoc]
    rw [show o + 1 + gs.length = o + (gs.length + 1) by omega]

theorem table_map_single (o : Nat) (as : List α) :
    table f o (as.map (Glyph.mk · false)) = List.range' o as.length := by
  induction as generalizing o with
  | nil => rfl
  | cons a as ih => simp [table, ih, List.range'_succ]

/-- The table depends on the widths of the glyphs only. -/
theorem table_congr : ∀ {o : Nat} {gs hs : List (Glyph α)}, gs.map Glyph.cols = hs.map Glyph.cols →
    table f o gs = table f o hs
  | _, [], [], _ => rfl
  | o, ⟨a, v⟩ :: gs, ⟨b, w⟩ :: hs, h => by
    simp only [List.map_cons, List.cons.injEq] at h
    have hvw : v = w := by
      obtain ⟨h, -⟩ := h
      cases v <;> cases w <;> simp at h ⊢
    rw [table, table, hvw, table_congr h.2]

theorem cols_congr {gs hs : List (Glyph α)} (h : gs.map Glyph.cols = hs.map Glyph.cols) : cols gs = cols hs := by
  have := table_congr 0 (o := 0) h
  rw [← length_table 0 0 gs, this, length_table]

theorem mem_table : ∀ {o : Nat} {gs : List (Glyph α)} {e : Nat}, e ∈ table f o gs →
    ∃ k, o ≤ k ∧ k < o + gs.length ∧ (e = k ∨ e = k + f)
  | o, g :: gs, e, h => by
    simp only [table, List.mem_append] at h
    rcases h with h | h
    · refine ⟨o, Nat.le_refl _, by simp, ?_⟩
      split at h <;> simp at h <;> omega
    · obtain ⟨k, h1, h2, h3⟩ := mem_table h
      exact ⟨k, by omega, by simp only [List.length_cons]; omega, h3⟩

theorem getElem?_table_lead (o : Nat) (pre : List (Glyph α)) (g : Glyph α) (post : List (Glyph α)) :
    (table f o (pre ++ g :: post))[cols pre]? = some (o + pre.length) := by
  rw [table_append, List.getElem?_append_right (by simp), length_table, Nat.sub_self, table]
  split <;> simp

theorem getElem?_table_trail (o : Nat) (pre : List (Glyph α)) (a : α) (post : List (Glyph α)) :
    (table f o (pre ++ ⟨a, true⟩ :: post))[cols pre + 1]? = some (o + pre.length + f) := by
  rw [table_append, List.getElem?_append_right (by simp), length_table, Nat.add_sub_cancel_left, table]
  simp

/-- How an entry of an offset table follows from the one before it: the second
column of a wide glyph, or the next glyph. -/
def Follows (e e' : Nat) : Prop := (e < f ∧ e' = e + f) ∨ (e' < f ∧ e' = e % f + 1)

theorem le_getLast_of_follows {f : Nat} : ∀ (l : List Nat) (x : Nat), x < f → List.IsChain (Follows f) (x :: l) →
    (x :: l).getLast (by simp) < f → x ≤ (x :: l).getLast (by simp)
  | [], x, _, _, _ => by simp
  | [y], x, hx, hc, hlast => by
    rw [List.isChain_cons_cons, Follows, Nat.mod_eq_of_lt hx] at hc
    simp at hlast ⊢; omega
  | y :: z :: l, x, hx, hc, hlast => by
    rw [List.isChain_cons_cons, Follows, Nat.mod_eq_of_lt hx] at hc
    obtain ⟨⟨-, rfl⟩ | ⟨hy, rfl⟩, hc⟩ := hc
    · rw [List.isChain_cons_cons, Follows, Nat.add_mod_right, Nat.mod_eq_of_lt hx] at hc
      obtain ⟨h | ⟨hz, rfl⟩, hc⟩ := hc
      · omega
      · have := le_getLast_of_follows l (x + 1) hz hc (by simpa using hlast)
        simp at this ⊢; omega
    · have := le_getLast_of_follows (z :: l) (x + 1) hy hc (by simpa using hlast)
      simp at this ⊢; omega

/-- A list whose entries follow one from the other is the table of a strip,
with the index past its end as last entry. -/
theorem exists_table {f : Nat} : ∀ (es : List Nat) (o : Nat) (text : List α), o < f → List.IsChain (Follows f) (o :: es) →
    (o :: es).getLast (by simp) = o + text.length → o + text.length < f →
    ∃ gs : List (Glyph α), gs.map Glyph.char = text ∧ o :: es = table f o gs ++ [o + gs.length]
  | [], o, text, _, _, hl, _ => by
    have : text = [] := List.length_eq_zero_iff.mp (by simpa using hl)
    exact ⟨[], by simp [this], by simp⟩
  | e :: es, o, text, ho, hc, hl, hf => by
    rw [List.isChain_cons_cons] at hc
    obtain ⟨he, hc⟩ := hc
    rw [Follows, Nat.mod_eq_of_lt ho] at he
    rcases he with ⟨-, rfl⟩ | ⟨he, rfl⟩
    · cases es with
      | nil => simp at hl; omega
      | cons e' es =>
        rw [List.isChain_cons_cons, Follows, Nat.add_mod_right, Nat.mod_eq_of_lt ho] at hc
        obtain ⟨(h | ⟨hlt, rfl⟩), hc'⟩ := hc
        · omega
        · have hle := le_getLast_of_follows es (o + 1) hlt hc' (by simp at hl; rw [hl]; omega)
          cases text with
          | nil => simp at hl hle; omega
          | cons a text =>
            obtain ⟨gs, hgs, hes⟩ := exists_table es (o + 1) text hlt hc'
              (by simp at hl ⊢; omega) (by simp at hf; omega)
            refine ⟨⟨a, true⟩ :: gs, by simp [hgs], ?_⟩
            simp only [table, if_true, hes, List.cons_append, List.nil_append, List.length_cons]
            rw [show o + 1 + gs.length = o + (gs.length + 1) by omega]
    · have hle := le_getLast_of_follows es (o + 1) he hc (by simp at hl; rw [hl]; omega)
      cases text with
      | nil => simp at hl hle; omega
      | cons a text =>
        obtain ⟨gs, hgs, hes⟩ := exists_table es (o + 1) text he hc (by simp at hl ⊢; omega) (by simp at hf; omega)
        refine ⟨⟨a, false⟩ :: gs, by simp [hgs], ?_⟩
        simp only [table, Bool.false_eq_true, if_false, hes, List.cons_append, List.nil_append, List.length_cons]
        rw [show o + 1 + gs.length = o + (gs.length + 1) by omega]
end Strip

end Corehost.Lib

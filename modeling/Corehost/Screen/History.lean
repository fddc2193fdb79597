import Corehost.Row.Acts
import Corehost.Screen.Scroll
import Corehost.Screen.Text

/-!
# Histories of a screen buffer

* `Op`, `run`: calls on a screen buffer, one after the other;
* `Op.applyPlain`: the same calls on a buffer that stores its rows in order and
  scrolls whole rows with `slide`;
* `Sim s p`: the rows of `s` in order show what the stored rows of `p` show;
* `sim_run`: the calls preserve `Sim`.
-/

namespace Corehost

open Lib Lib.Strip ScreenBufferRow

namespace ScreenBuffer

/-! ## Calls -/

/-- A call on a screen buffer. `onRow` stands for the calls of `row(y)` that go
through the operations of a row: what they make of a row depends only on what
the row shows. The sizes are `SHORT`s. -/
inductive Op
  | scroll (sr clip : SmallRect) (useClip : Bool) (dest : Coord) (cp : Char32) (attr : UInt16)
  | shiftRows (dy : Int) (fillAttr : UInt16)
  | writeGlyph (c : Coord) (cp : Char32) (width : Int) (attr : UInt16)
  | writeTextRow (cw : Char32 → Int) (cursor : Coord) (text : List Char32) (attr : UInt16)
  | setAttr (c : Coord) (attr : UInt16)
  | clearCell (c : Coord) (attr : UInt16)
  | onRow (y : Int) (f : ScreenBufferRow → ScreenBufferRow) (hf : ∀ w, Acts w f)
  | clear (attr : UInt16)
  | resize (size : Coord) (hx : size.x ≤ 0x7FFF) (hy : size.y ≤ 0x7FFF)
  | setRect (rect : SmallRect)

def Op.apply (s : ScreenBuffer) : Op → ScreenBuffer
  | .scroll sr clip useClip dest cp attr => s.scroll sr clip useClip dest cp attr
  | .shiftRows dy fillAttr => s.shiftRows dy fillAttr
  | .writeGlyph c cp width attr => s.writeGlyph c [cp] width attr
  | .writeTextRow cw cursor text attr => (s.writeTextRow cw cursor text attr).2.2
  | .setAttr c attr => s.setAttr c attr
  | .clearCell c attr => s.clearCell c attr
  | .onRow y f _ => if s.validY y then s.modifyRow y f else s
  | .clear attr => s.clear attr
  | .resize size _ _ => s.resize size
  | .setRect rect => { s with viewport := (s.viewport.setRect rect s.size).2 }

def run (s : ScreenBuffer) (ops : List Op) : ScreenBuffer := ops.foldl Op.apply s

/-- A scroll on rows that are stored in order. Rows of full width slide, with
the clip equal to the source. -/
def scrollPlain (s : ScreenBuffer) (sr clip : SmallRect) (useClip : Bool) (dest : Coord) (cp : Char32) (attr : UInt16) :
    ScreenBuffer :=
  let dx := dest.x - sr.left
  let dy := dest.y - sr.top
  let sr := s.clampRect sr
  let clip := s.clipRect clip useClip
  if sr.isValid = false ∨ clip.isValid = false then s
  else if dx = 0 ∧ dy ≠ 0 ∧ sr.left = 0 ∧ sr.right = s.size.x - 1 ∧ clip = sr then
    { s with rows := slide sr.top sr.bottom dy (s.blank cp attr) s.rows }
  else s.scrollRect sr clip dx dy cp attr

def Op.applyPlain (s : ScreenBuffer) : Op → ScreenBuffer
  | .scroll sr clip useClip dest cp attr => s.scrollPlain sr clip useClip dest cp attr
  | .shiftRows dy fillAttr =>
    if dy = 0 then s
    else
      let all : SmallRect := ⟨0, 0, i16 (s.size.x - 1), i16 (s.size.y - 1)⟩
      s.scrollPlain all all false ⟨0, dy⟩ 0x20 fillAttr
  | op => op.apply s

def runPlain (s : ScreenBuffer) (ops : List Op) : ScreenBuffer := ops.foldl Op.applyPlain s

/-! ## The simulation -/

variable {s p : ScreenBuffer} {f : ScreenBufferRow → ScreenBufferRow} {w : Nat}

/-- Row by row, the lists show the same. -/
structure SameLines (w : Nat) (xs ys : List ScreenBufferRow) : Prop where
  length : xs.length = ys.length
  rel : ∀ (i : Nat) (x y : ScreenBufferRow), xs[i]? = some x → ys[i]? = some y → SameRow w x y

theorem SameLines.modify {g : ScreenBufferRow → ScreenBufferRow} {xs ys : List ScreenBufferRow} (h : SameLines w xs ys)
    (i : Nat) (hfg : ∀ r r', SameRow w r r' → SameRow w (f r) (g r')) : SameLines w (xs.modify i f) (ys.modify i g) := by
  refine ⟨by simpa using h.length, fun j x y hx hy => ?_⟩
  rw [List.getElem?_modify] at hx hy
  obtain ⟨x, hx', rfl⟩ := Option.map_eq_some_iff.mp hx
  obtain ⟨y, hy', rfl⟩ := Option.map_eq_some_iff.mp hy
  have hxy := h.rel j x y hx' hy'
  split
  · exact hfg _ _ hxy
  · exact hxy

theorem sameLines_replicate {r : ScreenBufferRow} (hr : r.ShowsSome w) (n : Nat) :
    SameLines w (List.replicate n r) (List.replicate n r) := by
  refine ⟨rfl, fun i x y hx hy => ?_⟩
  rw [List.eq_of_mem_replicate (List.mem_of_getElem? hx), List.eq_of_mem_replicate (List.mem_of_getElem? hy)]
  exact SameRow.refl hr

/-- The rows of `s` in order show what the stored rows of `p` show. -/
structure Sim (s p : ScreenBuffer) : Prop where
  sized : s.Sized
  inside : s.viewport.Inside s.size
  size : p.size = s.size
  viewport : p.viewport = s.viewport
  origin : p.rowOrigin = 0
  rows : SameLines s.size.x.toNat s.lines p.rows

theorem SameLines.showsSome {xs ys : List ScreenBufferRow} (h : SameLines w xs ys) {x : ScreenBufferRow} (hx : x ∈ xs) :
    x.ShowsSome w := by
  obtain ⟨i, hi⟩ := List.getElem?_of_mem hx
  have hlt : i < ys.length := by
    rw [← h.length]
    exact (List.getElem?_eq_some_iff.mp hi).1
  exact (h.rel i x _ hi (List.getElem?_eq_getElem hlt)).showsSome

/-- `Sim` from the rows in order. -/
theorem Sim.of_lines (hx : 1 ≤ s.size.x ∧ s.size.x ≤ 0x7FFF) (hy : 1 ≤ s.size.y ∧ s.size.y ≤ 0x7FFF)
    (hcount : s.rows.length = s.size.y.toNat) (horigin : s.rowOrigin < s.rows.length)
    (hinside : s.viewport.Inside s.size) (hsize : p.size = s.size) (hview : p.viewport = s.viewport)
    (h0 : p.rowOrigin = 0) (hrows : SameLines s.size.x.toNat s.lines p.rows) : Sim s p :=
  ⟨⟨hx, hy, hcount, horigin, fun _ hr => hrows.showsSome (mem_lines.mpr hr)⟩, hinside, hsize, hview, h0, hrows⟩

theorem Sim.plain (h : s.Sized) (hin : s.viewport.Inside s.size) : Sim s { s with rows := s.lines, rowOrigin := 0 } := by
  refine ⟨h, hin, rfl, rfl, rfl, rfl, fun i x y hx hy => ?_⟩
  obtain rfl := Option.some_inj.mp (hx.symm.trans hy)
  exact SameRow.refl (h.rows x (mem_lines.mp (List.mem_of_getElem? hx)))

/-- The stored rows of the plain buffer agree with its size, too. -/
theorem Sim.sized_right (h : Sim s p) : p.Sized := by
  have hl := h.rows.length
  rw [length_lines] at hl
  have hpos := h.sized.origin
  refine ⟨by rw [h.size]; exact h.sized.width, by rw [h.size]; exact h.sized.height, ?_, ?_, fun r hr => ?_⟩
  · rw [h.size, ← hl]
    exact h.sized.count
  · rw [h.origin]
    omega
  · obtain ⟨i, hi⟩ := List.getElem?_of_mem hr
    have hlt : i < s.lines.length := by
      rw [h.rows.length]
      exact (List.getElem?_eq_some_iff.mp hi).1
    rw [h.size]
    exact (h.rows.rel i _ r (List.getElem?_eq_getElem hlt) hi).symm.showsSome

theorem Sim.linearizeRows (h : Sim s p) : Sim s.linearizeRows p := by
  obtain ⟨hs, hrows, h0, hsize, hview, -⟩ := h.sized.linearizeRows
  refine ⟨hs, by rw [hview, hsize]; exact h.inside, by rw [hsize, h.size], by rw [hview, h.viewport], h.origin, ?_⟩
  rw [hsize, lines_of_origin h0, hrows]
  exact h.rows

/-- A row is changed in each buffer. -/
theorem Sim.modifyRows {g : ScreenBufferRow → ScreenBufferRow} (h : Sim s p) {y : Int} (hy : y < s.size.y)
    (hf : Acts s.size.x.toNat f) (hfg : ∀ r r', SameRow s.size.x.toNat r r' → SameRow s.size.x.toNat (f r) (g r')) :
    Sim (s.modifyRow y f) (p.modifyRow y g) := by
  have hp := h.sized_right
  refine ⟨h.sized.modifyRow y fun r hr => hf.showsSome hr, h.inside, h.size, h.viewport, h.origin, ?_⟩
  have hl := h.sized.lines_modifyRow (f := f) hy
  have hr := hp.lines_modifyRow (f := g) (y := y) (by rw [h.size]; exact hy)
  rw [lines_of_origin (show (p.modifyRow y g).rowOrigin = 0 from h.origin), lines_of_origin h.origin] at hr
  rw [hl, hr]
  exact h.rows.modify y.toNat hfg

/-- A row is changed in both buffers. -/
theorem Sim.modifyRow (h : Sim s p) {y : Int} (hy : y < s.size.y) (hf : Acts s.size.x.toNat f) :
    Sim (s.modifyRow y f) (p.modifyRow y f) := h.modifyRows hy hf fun _ _ => hf.sameRow

/-- The stored rows of two buffers that both store their rows in order. -/
theorem Sim.stored (h : Sim s p) (h0 : s.rowOrigin = 0) {xs ys : List ScreenBufferRow} (hlen : xs.length = s.rows.length)
    (hrows : SameLines s.size.x.toNat xs ys) : Sim { s with rows := xs } { p with rows := ys } := by
  refine .of_lines h.sized.width h.sized.height (hlen.trans h.sized.count) (hlen ▸ h.sized.origin) h.inside h.size
    h.viewport h.origin ?_
  rw [lines_of_origin (s := { s with rows := xs }) h0]
  exact hrows

theorem SameLines.foldl_modify {f g : Nat → ScreenBufferRow → ScreenBufferRow} (at_ : Nat → Nat) : ∀ (is : List Nat)
    {xs ys : List ScreenBufferRow}, SameLines w xs ys → (∀ i ∈ is, f i = g i ∧ Acts w (f i)) →
    SameLines w (is.foldl (fun xs i => xs.modify (at_ i) (f i)) xs) (is.foldl (fun xs i => xs.modify (at_ i) (g i)) ys)
  | [], _, _, h, _ => h
  | i :: is, _, _, h, hfg => by
    obtain ⟨heq, hacts⟩ := hfg i List.mem_cons_self
    refine SameLines.foldl_modify at_ is ?_ fun j hj => hfg j (List.mem_cons_of_mem _ hj)
    change SameLines _ _ (List.modify _ _ (g i))
    rw [← heq]
    exact h.modify _ fun _ _ => hacts.sameRow

theorem length_foldl_modify (f : Nat → ScreenBufferRow → ScreenBufferRow) (at_ : Nat → Nat) (is : List Nat)
    (xs : List ScreenBufferRow) : (is.foldl (fun xs i => xs.modify (at_ i) (f i)) xs).length = xs.length :=
  List.foldlRecOn (motive := fun ys : List ScreenBufferRow => ys.length = xs.length) _ _ rfl
    fun _ hy _ _ => (List.length_modify ..).trans hy

/-- A loop that changes stored rows only. -/
theorem foldl_stored (at_ : Nat → Nat) (f : List ScreenBufferRow → Nat → ScreenBufferRow → ScreenBufferRow) :
    ∀ (is : List Nat) (s : ScreenBuffer),
    is.foldl (fun s i => { s with rows := s.rows.modify (at_ i) (f s.scrollSavedRows i) }) s =
      { s with rows := is.foldl (fun xs i => xs.modify (at_ i) (f s.scrollSavedRows i)) s.rows }
  | [], _ => rfl
  | i :: is, s => by
    simp only [List.foldl_cons]
    exact foldl_stored at_ f is { s with rows := s.rows.modify (at_ i) (f s.scrollSavedRows i) }

theorem Sim.foldl_modifyRow : ∀ (ys : List Nat) {s p : ScreenBuffer}, Sim s p → Acts s.size.x.toNat f →
    (∀ y ∈ ys, (y : Int) < s.size.y) →
    Sim (ys.foldl (fun s (y : Nat) => s.modifyRow y f) s) (ys.foldl (fun s (y : Nat) => s.modifyRow y f) p)
  | [], _, _, h, _, _ => h
  | y :: ys, _, _, h, hf, hy =>
    Sim.foldl_modifyRow ys (h.modifyRow (hy y List.mem_cons_self) hf) hf fun x hx => hy x (List.mem_cons_of_mem _ hx)

/-! ## Scrolling -/

theorem Sim.clampRect_eq (h : Sim s p) (r : SmallRect) : p.clampRect r = s.clampRect r := by
  unfold clampRect
  rw [h.size]

theorem Sim.clipRect_eq (h : Sim s p) (clip : SmallRect) (useClip : Bool) :
    p.clipRect clip useClip = s.clipRect clip useClip := by
  unfold clipRect
  rw [h.clampRect_eq, h.size]

/-- The rows have slid in both buffers. -/
theorem Sim.slid {s' : ScreenBuffer} {ys : List ScreenBufferRow} {lo hi dy : Int} {cp : Char32} {attr : UInt16} (h : Sim s p)
    (hs : Slid lo hi dy (Filled s.size.x.toNat cp attr) s.lines s'.lines) (hframe : Frame s s')
    (hp : Slid lo hi dy (Filled s.size.x.toNat cp attr) p.rows ys) : Sim s' { p with rows := ys } := by
  have hx := h.sized.width
  refine .of_lines (by rw [hframe.size]; exact hx) (by rw [hframe.size]; exact h.sized.height)
    (by rw [hframe.count, hframe.size]; exact h.sized.count) hframe.origin
    (by rw [hframe.viewport, hframe.size]; exact h.inside) (h.size.trans hframe.size.symm)
    (h.viewport.trans hframe.viewport.symm) h.origin ⟨?_, ?_⟩
  · rw [hs.1, hp.1]
    exact h.rows.length
  · rw [hframe.size]
    exact hs.rel hp h.rows.length h.rows.rel fun x y hx' hy' =>
      ⟨_, _, hx'.shows (by omega), hy'.shows (by omega)⟩

theorem acts_fillColumns (cp : Char32) (attr : UInt16) (left right : Int) : Acts w (fillColumns cp attr left right) :=
  Acts.foldl _ fun _ _ => acts_writeGlyph _ cp (.inl rfl) _

theorem foldl_modifyRow_frame (is : List Nat) (s : ScreenBuffer) :
    let s' := is.foldl (fun s (y : Nat) => s.modifyRow y f) s
    s'.size = s.size ∧ s'.rowOrigin = s.rowOrigin ∧ s'.scrollSavedRows = s.scrollSavedRows :=
  List.foldlRecOn (motive := fun s' : ScreenBuffer =>
      s'.size = s.size ∧ s'.rowOrigin = s.rowOrigin ∧ s'.scrollSavedRows = s.scrollSavedRows) _ _ ⟨rfl, rfl, rfl⟩
    fun _ h _ _ => h

theorem fillRect_frame (r : SmallRect) (cp : Char32) (attr : UInt16) :
    (s.fillRect r cp attr).size = s.size ∧ (s.fillRect r cp attr).rowOrigin = s.rowOrigin ∧
      (s.fillRect r cp attr).scrollSavedRows = s.scrollSavedRows := by
  unfold fillRect
  dsimp only
  split
  · exact ⟨rfl, rfl, rfl⟩
  · exact foldl_modifyRow_frame _ s

theorem Sim.fillRect (h : Sim s p) (r : SmallRect) (cp : Char32) (attr : UInt16) :
    Sim (s.fillRect r cp attr) (p.fillRect r cp attr) := by
  unfold ScreenBuffer.fillRect
  rw [h.clampRect_eq]
  dsimp only
  split
  · exact h
  · refine Sim.foldl_modifyRow _ h (acts_fillColumns cp attr _ _) fun y hy => ?_
    have hb : (s.clampRect r).bottom < s.size.y := by
      have := h.sized.height
      unfold clampRect
      dsimp only
      split_ifs <;> omega
    have ht : 0 ≤ (s.clampRect r).top := by
      unfold clampRect
      dsimp only
      split_ifs <;> omega
    have := List.mem_range'_1.mp hy
    omega

/-- The last path of a scroll, on buffers that both store their rows in order. -/
theorem Sim.scrollRect (h : Sim s p) (h0 : s.rowOrigin = 0) {sr : SmallRect} (hsr : 0 ≤ sr.top ∧ sr.bottom < s.size.y)
    (clip : SmallRect) (dx dy : Int) (cp : Char32) (attr : UInt16) :
    Sim (s.scrollRect sr clip dx dy cp attr) (p.scrollRect sr clip dx dy cp attr) := by
  have hrows := h.rows
  have hx := h.sized.width
  have hlen := h.sized.count
  rw [lines_of_origin h0] at hrows
  unfold ScreenBuffer.scrollRect
  dsimp only
  generalize hst : max sr.top (clip.top - dy) = st
  generalize hsb : min sr.bottom (clip.bottom - dy) = sb
  generalize hsl : max sr.left (clip.left - dx) = sl
  generalize min sr.right (clip.right - dx) = srr
  generalize hfr : SmallRect.mk (max sr.left clip.left) (max sr.top clip.top) (min sr.right clip.right)
    (min sr.bottom clip.bottom) = fr
  by_cases hm : (sl ≤ srr && st ≤ sb) = true
  · rw [if_pos hm, if_pos hm, if_pos hm, if_pos hm]
    obtain ⟨S, hS⟩ : ∃ S, S = (Lib.resize s.scrollSavedRows (sb - st + 1).toNat {}).mapIdx fun (y : Nat) r =>
        (r.resetFill (u16 s.size.x.toNat) 0x20 (.ofWord attr)).copyFrom (s.rows.getD (st + y).toNat {}) (u16 sl.toNat) 0
          (u16 (srr - sl + 1).toNat) := ⟨_, rfl⟩
    obtain ⟨P, hP⟩ : ∃ P, P = (Lib.resize p.scrollSavedRows (sb - st + 1).toNat {}).mapIdx fun (y : Nat) r =>
        (r.resetFill (u16 p.size.x.toNat) 0x20 (.ofWord attr)).copyFrom (p.rows.getD (st + y).toNat {}) (u16 sl.toNat) 0
          (u16 (srr - sl + 1).toNat) := ⟨_, rfl⟩
    rw [← hS, ← hP]
    have hSP : SameLines s.size.x.toNat S P := by
      refine ⟨by simp [hS, hP], fun i x y hxi hyi => ?_⟩
      have hi : i < (sb - st + 1).toNat := by
        have := (List.getElem?_eq_some_iff.mp hxi).1
        simpa [hS] using this
      have hin : (st + i).toNat < s.rows.length := by omega
      have hin' : (st + i).toNat < p.rows.length := by rw [← hrows.length]; exact hin
      have hsrc := hrows.rel _ _ _ (List.getElem?_eq_getElem hin) (List.getElem?_eq_getElem hin')
      rw [hS, List.getElem?_mapIdx] at hxi
      rw [hP, List.getElem?_mapIdx] at hyi
      obtain ⟨x, -, rfl⟩ := Option.map_eq_some_iff.mp hxi
      obtain ⟨y, -, rfl⟩ := Option.map_eq_some_iff.mp hyi
      rw [List.getD_eq_getElem?_getD, List.getD_eq_getElem?_getD, List.getElem?_eq_getElem hin,
        List.getElem?_eq_getElem hin', Option.getD_some, Option.getD_some, h.size, h.sized.u16_width, hsrc.copyFrom_eq]
      exact (acts_copyFrom hsrc.symm.showsSome _ _ _).sameRow
        ⟨_, _, Shows.resetFill x (by omega) _ _, Shows.resetFill y (by omega) _ _⟩
    -- the fill, with the moved cells saved
    have hfill : Sim (if fr.isValid then { s with scrollSavedRows := S }.fillRect fr cp attr else { s with scrollSavedRows := S })
        (if fr.isValid then { p with scrollSavedRows := P }.fillRect fr cp attr else { p with scrollSavedRows := P }) := by
      have hsaved : Sim { s with scrollSavedRows := S } { p with scrollSavedRows := P } :=
        .of_lines h.sized.width h.sized.height h.sized.count h.sized.origin h.inside h.size h.viewport h.origin h.rows
      split
      · exact hsaved.fillRect fr cp attr
      · exact hsaved
    obtain ⟨s₁, hs₁⟩ : ∃ s₁, s₁ = if fr.isValid then { s with scrollSavedRows := S }.fillRect fr cp attr
        else { s with scrollSavedRows := S } := ⟨_, rfl⟩
    obtain ⟨p₁, hp₁⟩ : ∃ p₁, p₁ = if fr.isValid then { p with scrollSavedRows := P }.fillRect fr cp attr
        else { p with scrollSavedRows := P } := ⟨_, rfl⟩
    have hs₁' : s₁.size = s.size ∧ s₁.rowOrigin = s.rowOrigin ∧ s₁.scrollSavedRows = S := by
      rw [hs₁]
      split
      · exact fillRect_frame fr cp attr
      · exact ⟨rfl, rfl, rfl⟩
    have hp₁' : p₁.scrollSavedRows = P := by
      rw [hp₁]
      split
      · exact (fillRect_frame fr cp attr).2.2
      · rfl
    rw [← hs₁, ← hp₁] at hfill ⊢
    obtain ⟨e1, e2, e3⟩ := hs₁'
    rw [foldl_stored (fun y => (st + dy + y).toNat) fun saved y r =>
        r.copyFrom (saved.getD y {}) 0 (u16 (sl + dx).toNat) (u16 (srr - sl + 1).toNat),
      foldl_stored (fun y => (st + dy + y).toNat) fun saved y r =>
        r.copyFrom (saved.getD y {}) 0 (u16 (sl + dx).toNat) (u16 (srr - sl + 1).toNat)]
    rw [← e3] at hSP hS
    rw [← hp₁'] at hSP
    have hrows₁ := hfill.rows
    rw [lines_of_origin (e2.trans h0)] at hrows₁
    refine hfill.stored (e2.trans h0) (length_foldl_modify _ _ _ _) (hrows₁.foldl_modify _ _ fun i hi => ?_)
    have hi := List.mem_range.mp hi
    have hSl : i < s₁.scrollSavedRows.length := by simpa [hS] using hi
    have hPl : i < p₁.scrollSavedRows.length := by rw [← hSP.length]; exact hSl
    have hsrc := hSP.rel i _ _ (List.getElem?_eq_getElem hSl) (List.getElem?_eq_getElem hPl)
    rw [List.getD_eq_getElem?_getD, List.getD_eq_getElem?_getD, List.getElem?_eq_getElem hSl,
      List.getElem?_eq_getElem hPl, Option.getD_some, Option.getD_some]
    exact ⟨funext fun r => hsrc.copyFrom_eq r _ _ _, acts_copyFrom hsrc.showsSome _ _ _⟩
  · rw [if_neg hm, if_neg hm, if_neg hm, if_neg hm]
    split
    · exact h.fillRect fr cp attr
    · exact h

theorem clampRect_inside (h : s.Sized) (r : SmallRect) :
    0 ≤ (s.clampRect r).left ∧ 0 ≤ (s.clampRect r).top ∧
      (s.clampRect r).right < s.size.x ∧ (s.clampRect r).bottom < s.size.y := by
  have := h.width
  have := h.height
  unfold clampRect
  dsimp only
  split_ifs <;> omega

theorem Sim.scroll (h : Sim s p) (sr clip : SmallRect) (useClip : Bool) (dest : Coord) (cp : Char32) (attr : UInt16) :
    Sim (s.scroll sr clip useClip dest cp attr) (p.scrollPlain sr clip useClip dest cp attr) := by
  have hx := h.sized.width
  obtain ⟨hl, ht, hr, hb⟩ := clampRect_inside h.sized sr
  have hcount := h.sized.count
  have hrows := h.rows.length
  rw [length_lines] at hrows
  have hfill : ∀ r, Filled s.size.x.toNat cp attr (s.blank cp attr r) := fun r => ⟨r, by rw [blank, h.sized.u16_width]⟩
  have hblank : p.blank cp attr = s.blank cp attr := funext fun r => by rw [blank, blank, h.size]
  by_cases hfull : s.WholeRows (s.clampRect sr) (s.clipRect clip useClip) (dest.x - sr.left) (dest.y - sr.top)
  · obtain ⟨hs, hframe⟩ := WholeRows.slid cp attr h.sized hfull
    obtain ⟨hdx, hdy, hl0, hrw, hclip⟩ := hfull
    unfold scrollPlain
    simp only [h.clampRect_eq, h.clipRect_eq, hclip, h.size, hblank, or_self]
    split
    · rename_i hinv
      have hbt : (s.clampRect sr).bottom < (s.clampRect sr).top := by
        simp only [SmallRect.isValid, Bool.and_eq_false_iff, decide_eq_false_iff_not] at hinv
        omega
      exact h.slid hs hframe (slid_of_empty hbt)
    · rw [if_pos ⟨hdx, hdy, hl0, hrw, trivial⟩]
      have hsim := h.slid hs hframe (slid_slide ht (by omega) hfill)
      rwa [h.size] at hsim
  · obtain ⟨-, -, h0, hsize, -, -⟩ := h.sized.linearizeRows
    have hfull' : ¬ (dest.x - sr.left = 0 ∧ dest.y - sr.top ≠ 0 ∧ (s.clampRect sr).left = 0 ∧
      (s.clampRect sr).right = s.size.x - 1 ∧ s.clipRect clip useClip = s.clampRect sr) := hfull
    rw [scroll_eq_scrollRect h.sized hfull]
    unfold scrollPlain
    simp only [h.clampRect_eq, h.clipRect_eq, h.size, if_neg hfull']
    split
    · exact h
    · exact h.linearizeRows.scrollRect h0 ⟨ht, by rw [hsize]; exact hb⟩ _ _ _ cp attr

/-! ## Resizing and writing text -/

theorem foldl_rows (f : Nat → ScreenBufferRow → ScreenBufferRow) (is : List Nat) (s : ScreenBuffer) :
    is.foldl (fun s (i : Nat) => { s with rows := s.rows.modify i (f i) }) s =
      { s with rows := is.foldl (fun xs i => xs.modify i (f i)) s.rows } := foldl_stored id (fun _ => f) is s

theorem Sim.resize (h : Sim s p) {size : Coord} (hx : size.x ≤ 0x7FFF) (hy : size.y ≤ 0x7FFF) :
    Sim (s.resize size) (p.resize size) := by
  have hwidth := h.sized.width
  have hold := h.linearizeRows
  obtain ⟨-, -, h0, hsize, hview, -⟩ := h.sized.linearizeRows
  have hp : p.linearizeRows = p := by rw [ScreenBuffer.linearizeRows, if_pos (.inl h.origin)]
  unfold ScreenBuffer.resize
  dsimp only
  rw [hp, h.size]
  generalize hnx : (if size.x < 1 then 1 else size.x) = nx
  generalize hny : (if size.y < 1 then 1 else size.y) = ny
  have hnx : 1 ≤ nx ∧ nx ≤ 0x7FFF := by split_ifs at hnx <;> omega
  have hny : 1 ≤ ny ∧ ny ≤ 0x7FFF := by split_ifs at hny <;> omega
  split
  · exact h
  · have hblank : (ScreenBufferRow.ofWidth (u16 nx.toNat)).ShowsSome nx.toNat := by
      rw [u16_of_lt (by omega)]
      exact ⟨_, _, Shows.resetFill {} (by omega) _ _⟩
    have hrows := hold.rows
    rw [lines_of_origin h0, hsize] at hrows
    -- the blank rows of the new size, before the old ones are copied
    have hnew : Sim { s.linearizeRows with
          size := ⟨nx, ny⟩
          viewport := (s.linearizeRows.viewport.clampToBuffer ⟨nx, ny⟩).2 }.ensureRows
        { p with size := ⟨nx, ny⟩, viewport := (p.viewport.clampToBuffer ⟨nx, ny⟩).2 }.ensureRows := by
      refine .of_lines hnx hny (List.length_replicate ..) ?_ (ConsoleViewport.setRect_inside s.linearizeRows.viewport _ hnx hny)
        rfl ?_ rfl ?_
      · simp only [ensureRows, List.length_replicate]
        omega
      · simp only [ensureRows, h.viewport, hview]
      · rw [lines_of_origin rfl]
        exact sameLines_replicate hblank _
    have hcopy (b b' : ScreenBuffer) (hb : Sim b b') (hb0 : b.rowOrigin = 0) (is : List Nat) (c : Nat)
        (his : ∀ i ∈ is, i < s.linearizeRows.rows.length) :
        Sim (is.foldl (fun b y => { b with rows := b.rows.modify y fun r => r.copyFrom (s.linearizeRows.rows.getD y {}) 0 0 c }) b)
          (is.foldl (fun b y => { b with rows := b.rows.modify y fun r => r.copyFrom (p.rows.getD y {}) 0 0 c }) b') := by
      have hbrows := hb.rows
      rw [lines_of_origin hb0] at hbrows
      rw [foldl_rows, foldl_rows]
      refine hb.stored hb0 (length_foldl_modify _ id _ _) (SameLines.foldl_modify id _ hbrows fun i hi => ?_)
      have hi := his i hi
      have hi' : i < p.rows.length := by rw [← hrows.length]; exact hi
      have hsrc := hrows.rel i _ _ (List.getElem?_eq_getElem hi) (List.getElem?_eq_getElem hi')
      rw [List.getD_eq_getElem?_getD, List.getD_eq_getElem?_getD, List.getElem?_eq_getElem hi,
        List.getElem?_eq_getElem hi', Option.getD_some, Option.getD_some]
      exact ⟨funext fun r => hsrc.copyFrom_eq r _ _ _, acts_copyFrom hsrc.showsSome _ _ _⟩
    rw [hsize]
    refine hcopy _ _ hnew rfl _ _ fun i hi => ?_
    have hi := List.mem_range.mp hi
    have hcount := hold.sized.count
    rw [hsize] at hcount
    split at hi <;> omega

theorem Sim.writeTextRow (h : Sim s p) (cw : Char32 → Int) (cursor : Coord) (text : List Char32) (attr : UInt16) :
    Sim (s.writeTextRow cw cursor text attr).2.2 (p.writeTextRow cw cursor text attr).2.2 := by
  have hx := h.sized.width
  obtain ⟨hl, hlr, hr, ht, htb, hb⟩ := h.inside
  unfold ScreenBuffer.writeTextRow
  rw [h.viewport]
  dsimp only
  have hcx := le_clamp (v := cursor.x) hlr
  have hcx' := clamp_le (v := cursor.x) hlr
  have hcy := clamp_le (v := cursor.y) htb
  split
  · exact h
  · split
    · exact h
    · rename_i hne
      obtain ⟨h1, h2⟩ := measureRow_glyphs cw (x := clamp cursor.x s.viewport.rect.left s.viewport.rect.right) (by omega)
        (show s.viewport.rect.right < 0x7FFF by omega) text 0 (by omega)
      generalize measureRow cw _ _ 0 text = widths at *
      have hchars : text.take widths.length = ((text.take widths.length).map (glyphOf cw)).map Glyph.char := by
        simp [Function.comp_def, glyphOf]
      generalize (text.take widths.length).map (glyphOf cw) = new at *
      refine h.modifyRow (by omega) ?_
      rw [u16_of_lt (by omega), hchars, h1]
      refine acts_writeTextRun ?_ (by omega) _
      rintro rfl
      exact hne (by rw [h1]; rfl)

/-! ## Runs -/

theorem Sim.onRow (h : Sim s p) (c : Coord) (hf : Acts s.size.x.toNat f) :
    Sim (if s.valid c then s.modifyRow c.y f else s) (if p.valid c then p.modifyRow c.y f else p) := by
  have hvalid : p.valid c = s.valid c := by rw [valid, valid, h.size]
  rw [hvalid]
  split
  · rename_i hv
    simp only [valid, Bool.and_eq_true, decide_eq_true_eq] at hv
    exact h.modifyRow hv.2 hf
  · exact h

theorem sim_apply (h : Sim s p) (op : Op) : Sim (op.apply s) (op.applyPlain p) := by
  have hx := h.sized.width
  cases op with
  | scroll sr clip useClip dest cp attr => exact h.scroll sr clip useClip dest cp attr
  | shiftRows dy fillAttr =>
    unfold Op.apply Op.applyPlain ScreenBuffer.shiftRows
    rw [h.size]
    dsimp only
    split
    · exact h
    · exact h.scroll _ _ _ _ _ _
  | writeGlyph c cp width attr =>
    have hwrite : ∀ b : ScreenBuffer, b.writeGlyph c [cp] width attr =
        if b.valid c then b.modifyRow c.y fun r => r.writeGlyph (u16 c.x.toNat) [cp] (clamp width 1 2) (.ofWord attr) else b := by
      intro b
      unfold ScreenBuffer.writeGlyph
      cases b.valid c <;> simp
    have hw : clamp width 1 2 = 1 ∨ clamp width 1 2 = 2 := widthColumns_cases (fun _ => width) 0
    change Sim (s.writeGlyph c [cp] width attr) (p.writeGlyph c [cp] width attr)
    rw [hwrite, hwrite]
    exact h.onRow c (acts_writeGlyph _ cp hw _)
  | writeTextRow cw cursor text attr => exact h.writeTextRow cw cursor text attr
  | setAttr c attr => exact h.onRow c (acts_setAttr _ _)
  | clearCell c attr => exact h.onRow c (acts_writeGlyph _ 0x20 (.inl rfl) _)
  | onRow y f hf =>
    have hvalid : p.validY y = s.validY y := by rw [validY, validY, h.size]
    change Sim (if s.validY y then s.modifyRow y f else s) (if p.validY y then p.modifyRow y f else p)
    rw [hvalid]
    split
    · rename_i hv
      simp only [validY, Bool.and_eq_true, decide_eq_true_eq] at hv
      exact h.modifyRow hv.2 (hf _)
    · exact h
  | clear attr =>
    have hlen := h.rows.length
    rw [length_lines] at hlen
    have hblank : (ScreenBufferRow.ofWidth (u16 s.size.x.toNat) attr).ShowsSome s.size.x.toNat := by
      rw [h.sized.u16_width]
      exact ⟨_, _, Shows.resetFill {} (by omega) _ _⟩
    refine .of_lines hx h.sized.height ?_ ?_ h.inside h.size h.viewport rfl ?_
    · exact (List.length_replicate ..).trans h.sized.count
    · have := h.sized.origin
      simp only [Op.apply, ScreenBuffer.clear, List.length_replicate]
      omega
    · rw [lines_of_origin rfl]
      simp only [Op.apply, Op.applyPlain, ScreenBuffer.clear, h.size, ← hlen]
      exact sameLines_replicate hblank _
  | resize size hx hy => exact h.resize hx hy
  | setRect rect =>
    refine .of_lines hx h.sized.height h.sized.count h.sized.origin ?_ h.size ?_ h.origin h.rows
    · exact ConsoleViewport.setRect_inside s.viewport _ hx h.sized.height
    · simp only [Op.apply, Op.applyPlain, h.viewport, h.size]

theorem sim_run : ∀ (ops : List Op) {s p : ScreenBuffer}, Sim s p → Sim (run s ops) (runPlain p ops)
  | [], _, _, h => h
  | op :: ops, _, _, h => sim_run ops (sim_apply h op)

theorem sim_ofSize {sz : Coord} (hx : 1 ≤ sz.x ∧ sz.x ≤ 0x7FFF) (hy : 1 ≤ sz.y ∧ sz.y ≤ 0x7FFF) :
    Sim (ofSize sz) (ofSize sz) := by
  have hblank : (ScreenBufferRow.ofWidth (u16 sz.x.toNat)).ShowsSome sz.x.toNat := by
    rw [u16_of_lt (by omega)]
    exact ⟨_, _, Shows.resetFill {} (by omega) _ _⟩
  refine .of_lines hx hy (List.length_replicate ..) ?_ (ConsoleViewport.ofBuffer_inside hx hy) rfl rfl rfl ?_
  · simp only [ofSize, ensureRows, List.length_replicate]
    omega
  · rw [lines_of_origin rfl]
    exact sameLines_replicate hblank _

/-! ## Scrolling rows -/

/-- The buffer of which row `y` is `rows[y]`, as it is after the reference has
scrolled rows `lo, …, hi` by `dy`. -/
def slidRows (s : ScreenBuffer) (lo hi dy : Int) (cp : Char32) (attr : UInt16) : ScreenBuffer :=
  { s with rows := slide lo hi dy (s.blank cp attr) s.lines, rowOrigin := 0 }

theorem Sim.visible_eq (h : Sim s p) {y : Int} (hy : y < s.size.y) : (s.row y).visible = (p.row y).visible := by
  have h1 := (h.sized.row_eq hy).1
  have h2 := (h.sized_right.row_eq (y := y) (by rw [h.size]; exact hy)).1
  rw [lines_of_origin h.origin] at h2
  exact (h.rows.rel _ _ _ h1 h2).visible_eq

/-- After any history of calls, scrolling rows of full width moves row `y - dy`
to row `y`, fills the rows that this uncovers and leaves the other rows as they
are. After any later calls, the rows show what they show when row `y` is the
element `y` of a list. -/
theorem scroll_moves_rows {sz : Coord} (hx : 1 ≤ sz.x ∧ sz.x ≤ 0x7FFF) (hy : 1 ≤ sz.y ∧ sz.y ≤ 0x7FFF)
    (history later : List Op) {sr clip : SmallRect} {useClip : Bool} {dy : Int} (cp : Char32) (attr : UInt16)
    (hleft : sr.left ≤ 0) (hright : (run (ofSize sz) history).size.x - 1 ≤ sr.right) (hdy : dy ≠ 0)
    (hclip : (run (ofSize sz) history).clipRect clip useClip = (run (ofSize sz) history).clampRect sr) :
    let s := run (ofSize sz) history
    let s' := s.scroll sr clip useClip ⟨sr.left, sr.top + dy⟩ cp attr
    let range := s.clampRect sr
    (s'.size = s.size ∧ s'.viewport = s.viewport ∧ s'.rows.length = s.rows.length) ∧
    (∀ y : Int, 0 ≤ y → y < s.size.y →
      if range.top ≤ y ∧ y ≤ range.bottom then
        if range.top ≤ y - dy ∧ y - dy ≤ range.bottom then s'.row y = s.row (y - dy)
        else (s'.row y).visible = List.replicate s.size.x.toNat ⟨[cp], 1, .ofWord attr⟩
      else s'.row y = s.row y) ∧
    (run s' later).size = (runPlain (s.slidRows range.top range.bottom dy cp attr) later).size ∧
    (run s' later).viewport = (runPlain (s.slidRows range.top range.bottom dy cp attr) later).viewport ∧
    ∀ y : Int, y < (run s' later).size.y →
      ((run s' later).row y).visible = ((runPlain (s.slidRows range.top range.bottom dy cp attr) later).row y).visible := by
  intro s s' range
  have hs : s.Sized := (sim_run history (sim_ofSize hx hy)).sized
  have hin : s.viewport.Inside s.size := (sim_run history (sim_ofSize hx hy)).inside
  have hwidth := hs.width
  have hcount := hs.count
  obtain ⟨-, htop, -, hbot⟩ : 0 ≤ range.left ∧ 0 ≤ range.top ∧ range.right < s.size.x ∧ range.bottom < s.size.y :=
    clampRect_inside hs sr
  obtain ⟨hslid, hframe⟩ : Slid range.top range.bottom dy (Filled s.size.x.toNat cp attr) s.lines s'.lines ∧ Frame s s' :=
    scroll_slid cp attr hs hleft hright hclip hdy
  have hfill : ∀ r, Filled s.size.x.toNat cp attr (s.blank cp attr r) := fun r => ⟨r, by rw [blank, hs.u16_width]⟩
  have hsim : Sim s' (s.slidRows range.top range.bottom dy cp attr) :=
    (Sim.plain hs hin).slid hslid hframe (slid_slide htop (by rw [length_lines]; omega) hfill)
  have hlater := sim_run later hsim
  refine ⟨⟨hframe.size, hframe.viewport, hframe.count⟩, fun y h0 hy' => ?_, hlater.size.symm, hlater.viewport.symm,
    fun y hy' => hlater.visible_eq hy'⟩
  have hrow := (hsim.sized.row_eq (y := y) (by rw [hframe.size]; exact hy')).1
  have hold := (hs.row_eq hy').1
  have hmoved := hslid.2 y.toNat (by rw [length_lines]; omega)
  rw [hrow, hold, Int.toNat_of_nonneg h0] at hmoved
  split_ifs at hmoved ⊢ with h1 h2
  · have hsrc := (hs.row_eq (y := y - dy) (by omega)).1
    exact Option.some_inj.mp (hmoved.trans hsrc)
  · obtain ⟨r, hr, hfilled⟩ := hmoved
    rw [Option.some_inj.mp hr, hfilled.visible_eq (by omega)]
  · exact Option.some_inj.mp hmoved

/-- The last row moves up, in a ring of three rows with its origin at the
second one. -/
theorem scroll_moves_rows_last_row_up :
    let s := run (ofSize ⟨2, 3⟩) [.scroll ⟨0, 0, 1, 2⟩ ⟨0, 0, 1, 2⟩ false ⟨0, -1⟩ 0x2E 7, .writeGlyph ⟨0, 2⟩ 0x41 1 7]
    s.rowOrigin = 1 ∧ (s.row 2).visible = [⟨[0x41], 1, .ofWord 7⟩, ⟨[0x2E], 1, .ofWord 7⟩] ∧
      (s.scroll ⟨0, 1, 1, 2⟩ ⟨0, 1, 1, 2⟩ true ⟨0, 1 + -1⟩ 0x20 7).row 1 = s.row 2 := by
  intro s
  have h := @scroll_moves_rows ⟨2, 3⟩ (by decide) (by decide)
    [.scroll ⟨0, 0, 1, 2⟩ ⟨0, 0, 1, 2⟩ false ⟨0, -1⟩ 0x2E 7, .writeGlyph ⟨0, 2⟩ 0x41 1 7] [] ⟨0, 1, 1, 2⟩ ⟨0, 1, 1, 2⟩ true
    (-1) 0x20 7 (by decide) (by decide) (by decide) (by decide)
  refine ⟨by decide, by decide, ?_⟩
  exact h.2.1 1 (by decide) (by decide)

end ScreenBuffer

end Corehost

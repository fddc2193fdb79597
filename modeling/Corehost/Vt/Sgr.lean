import Corehost.Lib.Field
import Corehost.Lib.Register
import Corehost.Parser.Csi

/-!
# SGR sequences and the attribute word

`apply_sgr_to_attributes` (`vt_msg_dispatch.hpp`) applies the payload of one
SGR sequence to the attribute word. The payload has forgotten the order of the
parameters.

* `SgrChannel`: the fields of the attribute word that SGR writes, each of them a
  register in the sense of `Lib.Effect`;
* `summary_run`, `summary_foldl`: reading parameter groups pushes their effects on every channel;
* `applySgr_list`: applying the payload applies the summary of every channel;
* `sgr_list_eq_each_iff`: when `CSI g1;...;gn m` is `CSI g1 m`, ..., `CSI gn m`.
-/

namespace Corehost

open Lib Lib.Transducer

def FOREGROUND_BLUE : UInt16 := 0x0001
def FOREGROUND_GREEN : UInt16 := 0x0002
def FOREGROUND_RED : UInt16 := 0x0004
def FOREGROUND_INTENSITY : UInt16 := 0x0008
def BACKGROUND_BLUE : UInt16 := 0x0010
def BACKGROUND_GREEN : UInt16 := 0x0020
def BACKGROUND_RED : UInt16 := 0x0040
def BACKGROUND_INTENSITY : UInt16 := 0x0080
def COMMON_LVB_GRID_HORIZONTAL : UInt16 := 0x0400
def COMMON_LVB_REVERSE_VIDEO : UInt16 := 0x4000
def COMMON_LVB_UNDERSCORE : UInt16 := 0x8000

def resetSgrAttributes : UInt16 := 0x07

def setSgrForegroundDefault (attr : UInt16) : UInt16 := (attr &&& 0xFFF0) ||| 7

def setSgrBackgroundDefault (attr : UInt16) : UInt16 := attr &&& 0xFF0F

/-- The colour of an SGR index in the bit order of the attribute word. -/
def foregroundBgri (index : Nat) : UInt16 :=
  (if index.testBit 0 then FOREGROUND_RED else 0) ||| (if index.testBit 1 then FOREGROUND_GREEN else 0) |||
    (if index.testBit 2 then FOREGROUND_BLUE else 0) ||| (if index.testBit 3 then FOREGROUND_INTENSITY else 0)

def backgroundBgri (index : Nat) : UInt16 :=
  (if index.testBit 0 then BACKGROUND_RED else 0) ||| (if index.testBit 1 then BACKGROUND_GREEN else 0) |||
    (if index.testBit 2 then BACKGROUND_BLUE else 0) ||| (if index.testBit 3 then BACKGROUND_INTENSITY else 0)

def setSgrForegroundIndex (attr : UInt16) (index : Nat) : UInt16 :=
  if index ≤ 15 then (attr &&& 0xFFF0) ||| foregroundBgri index else attr

def setSgrBackgroundIndex (attr : UInt16) (index : Nat) : UInt16 :=
  if index ≤ 15 then (attr &&& 0xFF0F) ||| backgroundBgri index else attr

def setSgrFlag (attr flag : UInt16) : UInt16 := attr ||| flag

def clearSgrFlag (attr flag : UInt16) : UInt16 := attr &&& ~~~flag

def applySgrToAttributes (sgr : VtSgrPayload) (attr : UInt16) : UInt16 :=
  let attr := if sgr.has .reset then resetSgrAttributes else attr
  let attr :=
    match sgr.fg with
    | .default => setSgrForegroundDefault attr
    | .indexed value => if value ≤ 15 then setSgrForegroundIndex attr value else attr
    | _ => attr
  let attr :=
    match sgr.bg with
    | .default => setSgrBackgroundDefault attr
    | .indexed value => if value ≤ 15 then setSgrBackgroundIndex attr value else attr
    | _ => attr
  let attr := if sgr.clears .bold then clearSgrFlag attr COMMON_LVB_GRID_HORIZONTAL else attr
  let attr := if sgr.clears .underline then clearSgrFlag attr COMMON_LVB_UNDERSCORE else attr
  let attr := if sgr.clears .negative then clearSgrFlag attr COMMON_LVB_REVERSE_VIDEO else attr
  let attr := if sgr.has .bold then setSgrFlag attr COMMON_LVB_GRID_HORIZONTAL else attr
  let attr := if sgr.has .underline then setSgrFlag attr COMMON_LVB_UNDERSCORE else attr
  if sgr.has .negative then setSgrFlag attr COMMON_LVB_REVERSE_VIDEO else attr

/-! ## Flags of a payload -/

namespace VtSgrPayload

variable {m : VtSgrPayload} {f g : VtSgrFlag}

theorem flagBit_and (f g : VtSgrFlag) : vtSgrFlagBit f &&& vtSgrFlagBit g = if f = g then vtSgrFlagBit g else 0 := by
  cases f <;> cases g <;> decide

theorem not_flagBit_and (f g : VtSgrFlag) : ~~~vtSgrFlagBit f &&& vtSgrFlagBit g = if f = g then 0 else vtSgrFlagBit g := by
  cases f <;> cases g <;> decide

theorem or_flagBit_and (x : UInt16) (f g : VtSgrFlag) :
    ((x ||| vtSgrFlagBit f) &&& vtSgrFlagBit g != 0) = (decide (f = g) || x &&& vtSgrFlagBit g != 0) := by
  rw [or_and, flagBit_and]
  by_cases h : f = g
  · have hb : x &&& vtSgrFlagBit g ||| vtSgrFlagBit g = vtSgrFlagBit g := by
      rw [or_eq_putField, putField, UInt16.and_assoc, UInt16.and_not_self, UInt16.and_zero, UInt16.zero_or]
    rw [if_pos h, hb]
    have : vtSgrFlagBit g ≠ 0 := by cases g <;> decide
    simp [h, this]
  · simp [h]

theorem not_flagBit_and_ne (x : UInt16) (f g : VtSgrFlag) :
    (x &&& ~~~vtSgrFlagBit f &&& vtSgrFlagBit g != 0) = (!decide (f = g) && x &&& vtSgrFlagBit g != 0) := by
  rw [UInt16.and_assoc, not_flagBit_and]
  by_cases h : f = g <;> simp [h]

@[simp] theorem has_set : (m.set f).has g = (decide (f = g) || m.has g) := or_flagBit_and _ f g

@[simp] theorem clears_set : (m.set f).clears g = (!decide (f = g) && m.clears g) := not_flagBit_and_ne _ f g

@[simp] theorem has_clear : (m.clear f).has g = (!decide (f = g) && m.has g) := not_flagBit_and_ne _ f g

@[simp] theorem clears_clear : (m.clear f).clears g = (decide (f = g) || m.clears g) := or_flagBit_and _ f g

@[simp] theorem fg_set : (m.set f).fg = m.fg := rfl
@[simp] theorem bg_set : (m.set f).bg = m.bg := rfl
@[simp] theorem fg_clear : (m.clear f).fg = m.fg := rfl
@[simp] theorem bg_clear : (m.clear f).bg = m.bg := rfl

end VtSgrPayload

/-! ## Channels -/

/-- The fields of the attribute word. SGR writes the first five one by one, and
only a reset reaches the last. -/
inductive SgrChannel where
  | foreground | background | bold | underline | negative | others
deriving DecidableEq, Repr

namespace SgrChannel

def all : List SgrChannel := [foreground, background, bold, underline, negative, others]

def mask : SgrChannel → UInt16
  | foreground => 0x000F
  | background => 0x00F0
  | bold => COMMON_LVB_GRID_HORIZONTAL
  | underline => COMMON_LVB_UNDERSCORE
  | negative => COMMON_LVB_REVERSE_VIDEO
  | others => 0x3B00

/-- The field after a reset. -/
def base (c : SgrChannel) : UInt16 := resetSgrAttributes &&& c.mask

/-- The flag of a payload that the field stands for. -/
def flag? : SgrChannel → Option VtSgrFlag
  | bold => some .bold
  | underline => some .underline
  | negative => some .negative
  | _ => none

end SgrChannel

/-! ## Applying a payload -/

namespace SgrChannel

variable {c d : SgrChannel} {a v : UInt16}

/-- The word with the field set to `v`. -/
def put (d : SgrChannel) (a v : UInt16) : UInt16 := putField a (~~~d.mask) v

theorem not_mask_and (c d : SgrChannel) : ~~~d.mask &&& c.mask = if c = d then 0 else c.mask := by
  cases c <;> cases d <;> decide

theorem mask_and (c d : SgrChannel) : d.mask &&& c.mask = if c = d then c.mask else 0 := by
  cases c <;> cases d <;> decide

theorem put_and (hv : v &&& d.mask = v) : d.put a v &&& c.mask = if c = d then v else a &&& c.mask := by
  have hn := not_mask_and c d
  have hm := mask_and c d
  by_cases hc : c = d
  · subst hc
    rw [if_pos rfl] at hn ⊢
    exact putField_and_self hn hv
  · rw [if_neg hc] at hn hm ⊢
    have hz : v &&& c.mask = 0 := by rw [← hv, UInt16.and_assoc, hm, UInt16.and_zero]
    exact putField_and_disjoint hn hz

theorem foregroundBgri_mask (index : Nat) : foregroundBgri index &&& foreground.mask = foregroundBgri index := by
  unfold foregroundBgri
  split <;> split <;> split <;> split <;> decide

theorem backgroundBgri_mask (index : Nat) : backgroundBgri index &&& background.mask = backgroundBgri index := by
  unfold backgroundBgri
  split <;> split <;> split <;> split <;> decide

/-- Two words with the same fields are equal. -/
theorem eq_iff_fields {a b : UInt16} : a = b ↔ ∀ c : SgrChannel, a &&& c.mask = b &&& c.mask := by
  constructor
  · rintro rfl c
    rfl
  · intro h
    refine eq_of_fields (all.map mask) (by decide) fun m hm => ?_
    obtain ⟨c, -, rfl⟩ := List.mem_map.mp hm
    exact h c

/-- The entry of a colour in the summary of its field. -/
def colorEntry (bgri : Nat → UInt16) (default : UInt16) : VtSgrColor → Option (Option UInt16)
  | .none => none
  | .default => some (some default)
  | .indexed index => if index ≤ 15 then some (some (bgri index)) else some none
  | .rgb _ _ _ => some none

/-- The entry of a flag in the summary of its field. -/
def flagEntry (c : SgrChannel) (m : VtSgrPayload) (f : VtSgrFlag) : Option (Option UInt16) :=
  if m.has f then some (some c.mask) else if m.clears f then some (some 0) else none

/-- What a payload knows of the effects on a field. -/
def summary (c : SgrChannel) (m : VtSgrPayload) : Summary UInt16 :=
  { cleared := m.has .reset
    last := match c with
      | foreground => colorEntry foregroundBgri 7 m.fg
      | background => colorEntry backgroundBgri 0 m.bg
      | bold => c.flagEntry m .bold
      | underline => c.flagEntry m .underline
      | negative => c.flagEntry m .negative
      | others => none }

end SgrChannel

namespace VtSgrPayload

open SgrChannel

variable {c d : SgrChannel} {a v : UInt16}

theorem put_ite_and {p : Prop} [Decidable p] (hv : v &&& d.mask = v) :
    (if p then d.put a v else a) &&& c.mask = if c = d ∧ p then v else a &&& c.mask := by
  rw [apply_ite (· &&& c.mask), put_and hv]
  by_cases hc : c = d <;> by_cases hp : p <;> simp [hc, hp]

theorem setSgrFlag_eq (a : UInt16) (d : SgrChannel) : setSgrFlag a d.mask = d.put a d.mask := or_eq_putField _ _

theorem clearSgrFlag_eq (a : UInt16) (d : SgrChannel) : clearSgrFlag a d.mask = d.put a 0 := and_eq_putField _ _

/-- The foreground step of `apply_sgr_to_attributes`. -/
theorem foreground_and (fg : VtSgrColor) (a : UInt16) (c : SgrChannel) :
    (match fg with
      | .default => setSgrForegroundDefault a
      | .indexed value => if value ≤ 15 then setSgrForegroundIndex a value else a
      | _ => a) &&& c.mask =
    if c = .foreground then ({ last := colorEntry foregroundBgri 7 fg } : Summary UInt16).value 0 (a &&& c.mask)
    else a &&& c.mask := by
  cases fg with
  | none => simp [colorEntry, Summary.value]
  | default =>
    have : setSgrForegroundDefault a = foreground.put a 7 := rfl
    simp only [this, put_and (show 7 &&& foreground.mask = 7 by decide), colorEntry, Summary.value]
  | indexed value =>
    by_cases hv : value ≤ 15
    · have : setSgrForegroundIndex a value = foreground.put a (foregroundBgri value) := by
        rw [setSgrForegroundIndex, if_pos hv]; rfl
      simp only [if_pos hv, this, put_and (foregroundBgri_mask value), colorEntry, Summary.value]
    · simp [hv, colorEntry, Summary.value]
  | rgb r g b => simp [colorEntry, Summary.value]

/-- The background step of `apply_sgr_to_attributes`. -/
theorem background_and (bg : VtSgrColor) (a : UInt16) (c : SgrChannel) :
    (match bg with
      | .default => setSgrBackgroundDefault a
      | .indexed value => if value ≤ 15 then setSgrBackgroundIndex a value else a
      | _ => a) &&& c.mask =
    if c = .background then ({ last := colorEntry backgroundBgri 0 bg } : Summary UInt16).value 0 (a &&& c.mask)
    else a &&& c.mask := by
  cases bg with
  | none => simp [colorEntry, Summary.value]
  | default =>
    have : setSgrBackgroundDefault a = background.put a 0 := and_eq_putField _ _
    simp only [this, put_and (show 0 &&& background.mask = 0 by decide), colorEntry, Summary.value]
  | indexed value =>
    by_cases hv : value ≤ 15
    · have : setSgrBackgroundIndex a value = background.put a (backgroundBgri value) := by
        rw [setSgrBackgroundIndex, if_pos hv]; rfl
      simp only [if_pos hv, this, put_and (backgroundBgri_mask value), colorEntry, Summary.value]
    · simp [hv, colorEntry, Summary.value]
  | rgb r g b => simp [colorEntry, Summary.value]

/-- Applying a payload applies the summary of every channel. -/
theorem applySgr_and (m : VtSgrPayload) (attr : UInt16) (c : SgrChannel) :
    applySgrToAttributes m attr &&& c.mask = (c.summary m).value c.base (attr &&& c.mask) := by
  have hz (d : SgrChannel) : 0 &&& d.mask = 0 := UInt16.zero_and
  have hs (d : SgrChannel) : d.mask &&& d.mask = d.mask := UInt16.and_self
  have hreset : (if m.has .reset then resetSgrAttributes else attr) &&& c.mask =
      if m.has .reset then c.base else attr &&& c.mask := apply_ite (· &&& c.mask) _ _ _
  unfold applySgrToAttributes
  simp only [show COMMON_LVB_GRID_HORIZONTAL = bold.mask from rfl, show COMMON_LVB_UNDERSCORE = underline.mask from rfl,
    show COMMON_LVB_REVERSE_VIDEO = negative.mask from rfl, setSgrFlag_eq, clearSgrFlag_eq, put_ite_and (hz _),
    put_ite_and (hs _)]
  rw [background_and, foreground_and, hreset]
  cases c <;> simp only [reduceCtorEq, false_and, true_and, if_false, if_true, summary, flagEntry, Summary.value]
  case others => rfl
  case foreground => split <;> rfl
  case background => split <;> rfl
  all_goals
    split
    · rfl
    · split <;> rfl

end VtSgrPayload

/-! ## Parameter groups -/

def VtSgrColor.IsBytes : VtSgrColor → Prop
  | .indexed value => value < 256
  | .rgb r g b => r < 256 ∧ g < 256 ∧ b < 256
  | _ => True

theorem u8OfShort_lt (v : Int) : u8OfShort v < 256 := by
  unfold u8OfShort
  omega

/-- What a parameter group does to a payload. -/
inductive SgrAction where
  | set (f : VtSgrFlag)
  | clear (f : VtSgrFlag)
  | clearWeight
  | foreground (color : VtSgrColor)
  | background (color : VtSgrColor)
  | nothing
deriving DecidableEq, Repr

namespace SgrAction

def run (m : VtSgrPayload) : SgrAction → VtSgrPayload
  | set f => m.set f
  | clear f => m.clear f
  | clearWeight => (m.clear .bold).clear .faint
  | foreground color => { m with fg := color }
  | background color => { m with bg := color }
  | nothing => m

/-- The action of a parameter that stands alone. -/
def ofParam (v : Int) : SgrAction :=
  if v = 0 then .set .reset
  else if v = 1 then .set .bold
  else if v = 2 then .set .faint
  else if v = 3 then .set .italic
  else if v = 4 then .set .underline
  else if v = 5 then .set .blink
  else if v = 7 then .set .negative
  else if v = 8 then .set .conceal
  else if v = 9 then .set .strikethrough
  else if v = 22 then .clearWeight
  else if v = 23 then .clear .italic
  else if v = 24 then .clear .underline
  else if v = 25 then .clear .blink
  else if v = 27 then .clear .negative
  else if v = 28 then .clear .conceal
  else if v = 29 then .clear .strikethrough
  else if 30 ≤ v ∧ v ≤ 37 then .foreground (.indexed (u8OfShort (v - 30)))
  else if v = 39 then .foreground .default
  else if 40 ≤ v ∧ v ≤ 47 then .background (.indexed (u8OfShort (v - 40)))
  else if v = 49 then .background .default
  else if 90 ≤ v ∧ v ≤ 97 then .foreground (.indexed (u8OfShort (v - 90 + 8)))
  else if 100 ≤ v ∧ v ≤ 107 then .background (.indexed (u8OfShort (v - 100 + 8)))
  else .nothing

theorem run_ofParam (m : VtSgrPayload) (v : Int) : (ofParam v).run m = m.apply v := by
  simp only [ofParam, apply_ite (run m)]
  rfl

def ofColor (v : Int) (color : VtSgrColor) : SgrAction := if v = 38 then .foreground color else .background color

theorem run_ofColor (m : VtSgrPayload) (v : Int) (color : VtSgrColor) : (ofColor v color).run m = m.setColor v color :=
  apply_ite (run m) _ _ _

/-- No action clears the reset or takes a colour away, and bold and faint are
only cleared together. The components of a colour are bytes. -/
def Ok : SgrAction → Prop
  | clear f => f ≠ .reset ∧ f ≠ .bold ∧ f ≠ .faint
  | foreground color => color ≠ .none ∧ color.IsBytes
  | background color => color ≠ .none ∧ color.IsBytes
  | _ => True

theorem ok_ite {p : Prop} [Decidable p] {a b : SgrAction} (ha : a.Ok) (hb : b.Ok) : (if p then a else b).Ok := by
  split
  · exact ha
  · exact hb

theorem ok_ofParam (v : Int) : (ofParam v).Ok := by
  unfold ofParam
  repeat' apply ok_ite
  all_goals simp [Ok, VtSgrColor.IsBytes, u8OfShort_lt]

theorem ok_ofColor (v : Int) {color : VtSgrColor} (h : color ≠ .none ∧ color.IsBytes) : (ofColor v color).Ok := by
  unfold ofColor
  split <;> exact h

/-- A colour outside the sixteen of the attribute word has no bits. -/
def colorEffect (bgri : Nat → UInt16) (default : UInt16) : VtSgrColor → Effect UInt16
  | .none => .keep
  | .default => .write default
  | .indexed index => if index ≤ 15 then .write (bgri index) else .skip
  | .rgb _ _ _ => .skip

def setEffect (c : SgrChannel) (f : VtSgrFlag) : Effect UInt16 :=
  if f = .reset then .reset else if c.flag? = some f then .write c.mask else .keep

def clearEffect (c : SgrChannel) (f : VtSgrFlag) : Effect UInt16 := if c.flag? = some f then .write 0 else .keep

/-- What the action does to a field of the attribute word. -/
def effect (c : SgrChannel) : SgrAction → Effect UInt16
  | set f => setEffect c f
  | clear f => clearEffect c f
  | clearWeight => clearEffect c .bold
  | foreground color => if c = .foreground then colorEffect foregroundBgri 7 color else .keep
  | background color => if c = .background then colorEffect backgroundBgri 0 color else .keep
  | nothing => .keep

end SgrAction

/-- A complete parameter group: a parameter that stands alone, or an extended colour. -/
inductive SgrOp where
  | single (v : Int)
  | indexed (v : Int) (index : Int)
  | rgb (v : Int) (r g b : Int)
deriving DecidableEq, Repr

namespace SgrOp

def params : SgrOp → List Int
  | single v => [v]
  | indexed v index => [v, 5, index]
  | rgb v r g b => [v, 2, r, g, b]

/-- The parameters 38 and 48, and no others, start an extended colour. -/
def Complete : SgrOp → Prop
  | single v => v ≠ 38 ∧ v ≠ 48
  | indexed v _ => v = 38 ∨ v = 48
  | rgb v _ _ _ => v = 38 ∨ v = 48

instance : (g : SgrOp) → Decidable g.Complete
  | single v => inferInstanceAs (Decidable (v ≠ 38 ∧ v ≠ 48))
  | indexed v _ => inferInstanceAs (Decidable (v = 38 ∨ v = 48))
  | rgb v _ _ _ => inferInstanceAs (Decidable (v = 38 ∨ v = 48))

def action : SgrOp → SgrAction
  | single v => .ofParam v
  | indexed v index => .ofColor v (.indexed (u8OfShort index))
  | rgb v r g b => .ofColor v (.rgb (u8OfShort r) (u8OfShort g) (u8OfShort b))

theorem sgrParams_append (m : VtSgrPayload) {g : SgrOp} (hg : g.Complete) (vs : List Int) :
    sgrParams m (g.params ++ vs) = sgrParams (g.action.run m) vs := by
  rw [sgrParams.eq_def]
  cases g with
  | single v => simp [params, action, SgrAction.run_ofParam, hg.1, hg.2]
  | indexed v index => simp [params, action, SgrAction.run_ofColor, show v = 38 ∨ v = 48 from hg]
  | rgb v r g b => simp [params, action, SgrAction.run_ofColor, show v = 38 ∨ v = 48 from hg]

/-- Complete groups are read one after the other. -/
theorem sgrParams_flatMap : ∀ {gs : List SgrOp} (m : VtSgrPayload), (∀ g ∈ gs, g.Complete) →
    sgrParams m (gs.flatMap params) = some (gs.foldl (fun m g => g.action.run m) m)
  | [], _, _ => rfl
  | g :: gs, m, h => by
    rw [List.flatMap_cons, sgrParams_append m (h g List.mem_cons_self),
      sgrParams_flatMap _ fun x hx => h x (List.mem_cons_of_mem _ hx), List.foldl_cons]

/-! ## Effects on the fields -/

theorem summary_set (c : SgrChannel) (m : VtSgrPayload) (f : VtSgrFlag) :
    c.summary (m.set f) = (c.summary m).push (SgrAction.setEffect c f) := by
  cases c <;> cases f <;>
    simp [SgrChannel.summary, SgrChannel.flagEntry, SgrAction.setEffect, SgrChannel.flag?, Summary.push]

theorem summary_clear (c : SgrChannel) (m : VtSgrPayload) {f : VtSgrFlag} (hf : f ≠ .reset) :
    c.summary (m.clear f) = (c.summary m).push (SgrAction.clearEffect c f) := by
  cases c <;> cases f <;>
    simp_all [SgrChannel.summary, SgrChannel.flagEntry, SgrAction.clearEffect, SgrChannel.flag?, Summary.push]

theorem summary_color (c : SgrChannel) (m : VtSgrPayload) {color : VtSgrColor} (h : color ≠ .none) :
    c.summary { m with fg := color } = (c.summary m).push ((SgrAction.foreground color).effect c) ∧
    c.summary { m with bg := color } = (c.summary m).push ((SgrAction.background color).effect c) := by
  have hentry (bgri : Nat → UInt16) (default : UInt16) (s : Summary UInt16) :
      s.push (SgrAction.colorEffect bgri default color) = { s with last := SgrChannel.colorEntry bgri default color } := by
    cases color with
    | none => exact absurd rfl h
    | default => rfl
    | indexed index => by_cases hi : index ≤ 15 <;> simp [SgrAction.colorEffect, SgrChannel.colorEntry, hi, Summary.push]
    | rgb r g b => rfl
  cases c <;> simp only [SgrAction.effect, reduceCtorEq, if_false, if_true, hentry] <;> exact ⟨rfl, rfl⟩

/-- Reading a parameter group pushes its effect on every field. -/
theorem summary_run (c : SgrChannel) (m : VtSgrPayload) {a : SgrAction} (h : a.Ok) :
    c.summary (a.run m) = (c.summary m).push (a.effect c) := by
  cases a with
  | set f => exact summary_set c m f
  | clear f => exact summary_clear c m h.1
  | clearWeight =>
    have hfaint : (c.summary (m.clear .bold)).push (SgrAction.clearEffect c .faint) = c.summary (m.clear .bold) := by
      cases c <;> rfl
    rw [SgrAction.run, summary_clear c _ (by decide), hfaint, summary_clear c m (by decide)]
    rfl
  | foreground color => exact (summary_color c m h.1).1
  | background color => exact (summary_color c m h.1).2
  | nothing => rfl

theorem action_ok (g : SgrOp) : g.action.Ok := by
  cases g with
  | single v => exact SgrAction.ok_ofParam v
  | indexed v index => exact SgrAction.ok_ofColor v ⟨by simp, u8OfShort_lt index⟩
  | rgb v r g b => exact SgrAction.ok_ofColor v ⟨by simp, u8OfShort_lt r, u8OfShort_lt g, u8OfShort_lt b⟩

/-- The effects of parameter groups on a field. -/
def effects (c : SgrChannel) (gs : List SgrOp) : List (Effect UInt16) := gs.map fun g => g.action.effect c

/-- The payload of a sequence knows the summary of its effects on every field. -/
theorem summary_foldl (c : SgrChannel) : ∀ (gs : List SgrOp) (m : VtSgrPayload),
    c.summary (gs.foldl (fun m g => g.action.run m) m) = (effects c gs).foldl Summary.push (c.summary m)
  | [], _ => rfl
  | g :: gs, m => by
    rw [List.foldl_cons, summary_foldl c gs, summary_run c m g.action_ok]
    rfl

theorem summary_empty (c : SgrChannel) : c.summary {} = {} := by cases c <;> rfl

/-- A field after one sequence with all the groups. -/
theorem applySgr_list (c : SgrChannel) (gs : List SgrOp) (attr : UInt16) :
    applySgrToAttributes (gs.foldl (fun m g => g.action.run m) {}) attr &&& c.mask =
      (Effect.summarize (effects c gs)).value c.base (attr &&& c.mask) := by
  rw [VtSgrPayload.applySgr_and, summary_foldl, summary_empty]
  rfl

/-- A field after one sequence for each group. -/
theorem applySgr_each (c : SgrChannel) : ∀ (gs : List SgrOp) (attr : UInt16),
    (gs.foldl (fun a g => applySgrToAttributes (g.action.run {}) a) attr) &&& c.mask =
      Effect.run c.base (effects c gs) (attr &&& c.mask)
  | [], _ => rfl
  | g :: gs, attr => by
    have hone := applySgr_list c [g] attr
    rw [List.foldl_cons, List.foldl_nil] at hone
    have hcons : effects c (g :: gs) = g.action.effect c :: effects c gs := rfl
    have hnil : effects c [g] = [g.action.effect c] := rfl
    rw [List.foldl_cons, applySgr_each c gs, hone, hcons, hnil, Effect.run_cons, Effect.value_singleton]

end SgrOp

/-! ## Sequences -/

/-- The characters of a complete parameter group. -/
structure SgrGroup where
  op : SgrOp
  complete : op.Complete
  digits : List (List Char32)
  isDigit : ∀ d ∈ digits, ∀ ch ∈ d, isDigit ch = true
  values : digits.map shortOf = op.params

/-- `CSI g1;...;gn m`. -/
def csiSgr (gs : List SgrGroup) : List Char32 := 0x1B :: 0x5B :: (joinParams (gs.flatMap SgrGroup.digits) ++ [0x6D])

/-- What `vt_msg_apply_state` makes of the attributes when the message is `sgr`. -/
def applySgrMessage (attr : UInt16) (m : Emitted) : UInt16 :=
  match m.id, m.message.payload with
  | .sgr, .sgr s => applySgrToAttributes s attr
  | _, _ => attr

/-- The attributes after a new parser has read `input` and its messages have been applied. -/
def attributesAfter (input : List Char32) (attr : UInt16) : UInt16 :=
  (VtParser.feed {} input).1.foldl applySgrMessage attr

/-- The condition under which the order of the groups does not matter. `CSI m`
is a reset. With more than `MAX_PARAMS` parameters the sequence is unknown, and
the groups must leave every field as it was. Otherwise every field is settled. -/
def SgrSettled (gs : List SgrGroup) (attr : UInt16) : Prop :=
  let ops := gs.map SgrGroup.op
  if gs = [] then attr = resetSgrAttributes
  else if MAX_PARAMS < (ops.flatMap SgrOp.params).length then
    ∀ c : SgrChannel, Effect.run c.base (SgrOp.effects c ops) (attr &&& c.mask) = attr &&& c.mask
  else ∀ c : SgrChannel, Effect.Settled c.base (attr &&& c.mask) (SgrOp.effects c ops)

namespace SgrGroup

variable {p : VtParser} {gs : List SgrGroup}

theorem applySgrMessage_split (m : Emitted) (attr : UInt16) : m.split.foldl applySgrMessage attr = applySgrMessage attr m := by
  cases h : m.text? with
  | none => simp [Emitted.split, h]
  | some s =>
    have hid := Emitted.id_of_text? h
    have hone (m' : Emitted) (hm : m'.id = .continueText) (a : UInt16) : applySgrMessage a m' = a := by
      simp [applySgrMessage, hm]
    have hall : ∀ (s : List Char32) (a : UInt16), (s.map fun ch => m.withText [ch]).foldl applySgrMessage a = a := by
      intro s
      induction s with
      | nil => exact fun _ => rfl
      | cons ch s ih =>
        intro a
        rw [List.map_cons, List.foldl_cons, hone (m.withText [ch]) hid]
        exact ih a
    rw [Emitted.split_of_text h, hall, hone m hid]

/-- The messages of the characters one by one do the same. -/
theorem attributesAfter_eq (input : List Char32) (attr : UInt16) :
    attributesAfter input attr = (run VtParser.charStep {} input).1.foldl applySgrMessage attr := by
  rw [attributesAfter, ← VtParser.feed_agrees.output {} input VtParser.steady_new, List.foldl_flatMap]
  simp only [applySgrMessage_split]

theorem digits_ne (g : SgrGroup) : g.digits ≠ [] := by
  intro h
  have hp : g.op.params = [] := by rw [← g.values, h]; rfl
  cases hop : g.op <;> simp [hop, SgrOp.params] at hp

theorem flatMap_values (gs : List SgrGroup) :
    (gs.flatMap digits).map shortOf = (gs.map op).flatMap SgrOp.params := by
  induction gs with
  | nil => rfl
  | cons g gs ih => rw [List.flatMap_cons, List.map_append, g.values, ih, List.map_cons, List.flatMap_cons]

theorem flatMap_isDigit (gs : List SgrGroup) : ∀ d ∈ gs.flatMap digits, ∀ ch ∈ d, Corehost.isDigit ch = true := by
  intro d hd
  obtain ⟨g, -, hg⟩ := List.mem_flatMap.mp hd
  exact g.isDigit d hg

/-- The parameters that the parser collects from a sequence. -/
theorem read_csiSgr (hne : gs ≠ []) : ((joinParams (gs.flatMap digits)).foldl CsiParams.read {}).addParam =
    CsiParams.ofValues ((gs.map op).flatMap SgrOp.params) := by
  have hflat : gs.flatMap digits ≠ [] := by
    obtain ⟨g, gs, rfl⟩ := List.exists_cons_of_ne_nil hne
    simp [digits_ne g]
  rw [CsiParams.read_params hflat rfl (flatMap_isDigit gs), flatMap_values]
  rfl

theorem dispatchCsi_sgr {c : CsiParams} (hc : c.csiOverflow = false) {m : VtSgrPayload}
    (hm : sgrParams {} (c.params.take c.paramIndex) = some m) (msg : VtMessage) :
    (dispatchCsi c 0x6D msg).1 = .sgr ∧ (dispatchCsi c 0x6D msg).2.payload = .sgr m := by
  have heq : dispatchCsi c 0x6D msg =
      (.sgr, { payload := .sgr m, keyModifier := if c.paramIndex > 1 then c.getParam 1 1 else 1 }) := by
    unfold dispatchCsi
    rw [if_neg (by simp [hc])]
    simp only [hm]
    rfl
  rw [heq]
  exact ⟨rfl, rfl⟩

/-- What one sequence does to the attributes. -/
theorem applySgrMessage_csi (hne : gs ≠ []) (raw : List Char32) (attr : UInt16) :
    applySgrMessage attr (VtParser.csiMessage raw
        (dispatchCsi ((joinParams (gs.flatMap digits)).foldl CsiParams.read {}).addParam 0x6D {})) =
      if MAX_PARAMS < ((gs.map op).flatMap SgrOp.params).length then attr
      else applySgrToAttributes ((gs.map op).foldl (fun m g => g.action.run m) {}) attr := by
  rw [read_csiSgr hne]
  generalize hvs : (gs.map op).flatMap SgrOp.params = vs
  have hov := CsiParams.ofValues_overflow vs
  split
  · rename_i hlong
    have hd : dispatchCsi (CsiParams.ofValues vs) 0x6D {} = (.continue_, {}) := by
      rw [dispatchCsi, if_pos (by simpa [hov] using hlong)]
    rw [hd]
    rfl
  · rename_i hshort
    have hparams : sgrParams {} ((CsiParams.ofValues vs).params.take (CsiParams.ofValues vs).paramIndex) =
        some ((gs.map op).foldl (fun m g => g.action.run m) {}) := by
      rw [CsiParams.ofValues_take, List.take_of_length_le (by omega), ← hvs]
      refine SgrOp.sgrParams_flatMap {} fun g hg => ?_
      obtain ⟨x, -, rfl⟩ := List.mem_map.mp hg
      exact x.complete
    obtain ⟨h1, h2⟩ := dispatchCsi_sgr (by simpa [hov] using hshort) hparams {}
    generalize dispatchCsi (CsiParams.ofValues vs) 0x6D {} = r at h1 h2
    obtain ⟨id, msg⟩ := r
    subst h1
    simp only at h2
    simp [VtParser.csiMessage, applySgrMessage, h2]

theorem run_csiSgr (h : VtParser.Steady p) (hm : p.mode = .ground) (gs : List SgrGroup) :
    run VtParser.charStep p (csiSgr gs) = ([VtParser.csiMessage (csiSgr gs)
      (dispatchCsi ((joinParams (gs.flatMap digits)).foldl CsiParams.read {}).addParam 0x6D {})], { p with csi := {} }) :=
  VtParser.run_csi h hm (CsiParams.isCsiBody_joinParams (flatMap_isDigit gs)) rfl

/-- No group is too long for a sequence of its own. -/
theorem params_le (g : SgrGroup) : ¬ MAX_PARAMS < (([g].map op).flatMap SgrOp.params).length := by
  obtain ⟨op, -, -, -, -⟩ := g
  cases op <;> simp [SgrOp.params, MAX_PARAMS]

/-- One sequence for each group. -/
theorem run_each : ∀ (gs : List SgrGroup) {p : VtParser} (attr : UInt16), VtParser.Steady p → p.mode = .ground →
    (run VtParser.charStep p (gs.flatMap fun g => csiSgr [g])).1.foldl applySgrMessage attr =
      (gs.map op).foldl (fun a g => applySgrToAttributes (g.action.run {}) a) attr
  | [], _, _, _, _ => rfl
  | g :: gs, p, attr, h, hm => by
    have hsteady : VtParser.Steady { p with csi := {} } := by
      have := run_inv (t := VtParser.charStep) (P := VtParser.Steady) (fun _ ch hs => hs.next ch) (csiSgr [g]) h
      rwa [run_csiSgr h hm] at this
    have hmsg := applySgrMessage_csi (List.cons_ne_nil g []) (csiSgr [g]) attr
    rw [if_neg g.params_le] at hmsg
    rw [List.flatMap_cons, run_append, List.foldl_append, run_csiSgr h hm, List.foldl_cons, List.foldl_nil, hmsg,
      run_each gs _ hsteady hm]
    rfl

end SgrGroup

open SgrGroup in
/-- One SGR sequence with all the groups is one sequence for each group exactly
when the groups are settled. -/
theorem sgr_list_eq_each_iff (gs : List SgrGroup) (attr : UInt16) :
    attributesAfter (csiSgr gs) attr = attributesAfter (gs.flatMap fun g => csiSgr [g]) attr ↔ SgrSettled gs attr := by
  have heach := run_each gs attr VtParser.steady_new rfl
  have hlist := run_csiSgr VtParser.steady_new rfl gs
  rw [attributesAfter_eq, attributesAfter_eq, heach, hlist, List.foldl_cons, List.foldl_nil, SgrSettled]
  by_cases hne : gs = []
  · subst hne
    rw [if_pos rfl]
    exact eq_comm
  · rw [applySgrMessage_csi hne, if_neg hne]
    split
    · rw [SgrChannel.eq_iff_fields]
      exact forall_congr' fun c => by rw [SgrOp.applySgr_each, eq_comm]
    · rw [SgrChannel.eq_iff_fields]
      exact forall_congr' fun c => by rw [SgrOp.applySgr_list, SgrOp.applySgr_each, Effect.value_eq_run_iff]

/-- `CSI 1;0 m` leaves bold on, `CSI 1 m CSI 0 m` does not. -/
theorem sgr_reset_before_bold :
    let gs : List SgrGroup := [⟨.single 1, by decide, [[0x31]], by decide, by decide⟩,
      ⟨.single 0, by decide, [[0x30]], by decide, by decide⟩]
    attributesAfter (csiSgr gs) 0x07 ≠ attributesAfter (gs.flatMap fun g => csiSgr [g]) 0x07 := by
  decide +kernel

end Corehost

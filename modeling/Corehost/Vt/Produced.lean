import Corehost.Vt.Sgr

/-!
# The messages that the parser can produce

* `Produced A id payload`: what the payload of a message looks like, when every
  character of the stream satisfies `A`;
* `oscScan`: how a string inside an OSC sequence is read. A string may hold ESC
  where a new OSC introducer follows;
* `Held`: what the parser keeps between two characters;
* `feed_produced`: every message of a stream is such a message.
-/

namespace Corehost

open Lib Lib.Transducer

/-! ## Strings of an OSC sequence -/

/-- Where the parser is in a string: in the string itself, after an ESC that may
end it, or inside an escape sequence that such an ESC has begun. -/
inductive OscPlace where
  | string | stringEscape | escape
deriving DecidableEq, Repr

namespace OscPlace

def mode : OscPlace → ParserMode
  | string => .osc
  | stringEscape => .oscSt
  | escape => .esc

/-- After ESC, `]` leads back to a string and `(` is skipped. -/
def afterEscape (ch : Char32) : Option OscPlace :=
  if ch = 0x5D then some string else if ch = 0x28 then some escape else none

def next (ch : Char32) : OscPlace → Option OscPlace
  | string => if ch = 0x1B then some stringEscape else if isC0OrDel ch then none else some string
  | stringEscape => if ch = 0x5C then none else afterEscape ch
  | escape => afterEscape ch

end OscPlace

def oscScan (pl : OscPlace) : List Char32 → Option OscPlace
  | [] => some pl
  | ch :: cs => (pl.next ch).bind fun pl => oscScan pl cs

/-- A string that leaves the parser in the string. -/
def IsOscString (s : List Char32) : Prop := oscScan .string s = some .string

theorem oscScan_append : ∀ (s t : List Char32) (pl : OscPlace),
    oscScan pl (s ++ t) = (oscScan pl s).bind fun pl => oscScan pl t
  | [], _, _ => rfl
  | ch :: s, t, pl => by
    rw [List.cons_append, oscScan, oscScan]
    cases h : pl.next ch with
    | none => rfl
    | some pl' => exact oscScan_append s t pl'

/-- The terminator of a string is the first one in the sequence. -/
theorem untilTerminator_append {tail : List Char32} (ht : tail = [0x07] ∨ tail = [0x1B, 0x5C]) :
    ∀ (s : List Char32) (pl : OscPlace), oscScan pl s = some .string → untilTerminator (s ++ tail) = some s
  | [], _, _ => by rcases ht with rfl | rfl <;> rfl
  | ch :: s, pl, h => by
    rw [oscScan] at h
    obtain ⟨pl', hn, hs⟩ := Option.bind_eq_some_iff.mp h
    have ih := untilTerminator_append ht s pl' hs
    have hbel : ch ≠ 0x07 := by
      rintro rfl
      cases pl <;> simp [OscPlace.next, OscPlace.afterEscape, isC0OrDel] at hn
    have hst : ¬ (ch = 0x1B ∧ (s ++ tail).head? = some 0x5C) := by
      rintro ⟨rfl, hh⟩
      have hpl : pl' = .stringEscape := by
        cases pl <;> simp [OscPlace.next, OscPlace.afterEscape] at hn
        exact hn.symm
      subst hpl
      cases s with
      | nil => simp [oscScan] at hs
      | cons c s =>
        have hc : c = 0x5C := by simpa using hh
        subst hc
        simp [oscScan, OscPlace.next] at hs
    rw [List.cons_append, untilTerminator, if_neg (by simp only [hbel, false_or]; exact hst), ih]
    rfl

/-- An ESC that may end a string. -/
theorem oscScan_stringEscape {s : List Char32} (h : oscScan .string s = some .stringEscape) :
    ∃ b, s = b ++ [0x1B] ∧ IsOscString b := by
  rcases List.eq_nil_or_concat s with rfl | ⟨b, c, rfl⟩
  · simp [oscScan] at h
  · rw [List.concat_eq_append, oscScan_append] at h
    obtain ⟨pl, hb, hc⟩ := Option.bind_eq_some_iff.mp h
    have hn : pl.next c = some .stringEscape := by
      cases hx : pl.next c <;> simp [oscScan, hx] at hc ⊢
      exact hc
    have hpl : pl = .string ∧ c = 0x1B := by
      cases pl
      · refine ⟨rfl, ?_⟩
        by_contra hne
        simp only [OscPlace.next, if_neg hne] at hn
        split at hn <;> simp at hn
      all_goals
        simp only [OscPlace.next, OscPlace.afterEscape] at hn
        repeat' split at hn
        all_goals simp at hn
    rw [hpl.1] at hb
    exact ⟨b, by rw [List.concat_eq_append, hpl.2], hb⟩

/-! ## Payloads -/

/-- What the payload of an SGR message looks like. Both flags that parameter 22
clears are cleared together. -/
structure VtSgrPayload.Collected (m : VtSgrPayload) : Prop where
  fg : m.fg.IsBytes
  bg : m.bg.IsBytes
  set : m.setFlags &&& 0x1FF = m.setFlags
  clear : m.clearFlags &&& 0x1FF = m.clearFlags
  bold : m.clears .bold = true → m.clears .faint = true ∨ m.has .faint = true
  faint : m.clears .faint = true → m.clears .bold = true ∨ m.has .bold = true
  reset : m.clears .reset = false
  exclusive : ∀ f, m.has f = true → m.clears f = false

/-- What the payload of a message looks like; messages without one are left out. -/
def Produced (A : Char32 → Prop) (id : VtMessageId) (payload : VtPayload) : Prop :=
  match id with
  | .text => ∃ ch, payload = .text [ch] ∧ classifyGroundChar ch = .otherControl ∧ A ch
  | .setWindowTitle => ∃ t, payload = .title t ∧ IsOscString t ∧ ∀ ch ∈ t, A ch
  | .carriageReturn | .lineFeed => payload = .text []
  | .cursorUp | .cursorDown | .cursorForward | .cursorBackward | .cursorNextLine | .cursorPrevLine
  | .cursorForwardTab | .cursorBackwardTab | .scrollUp | .scrollDown | .insertCharacters | .deleteCharacters
  | .eraseCharacters | .insertLines | .deleteLines => ∃ n, payload = .count n ∧ n ≠ 0 ∧ IsShort n
  | .cursorVertAbsolute => ∃ n, payload = .row n ∧ n ≠ 0 ∧ IsShort n
  | .cursorHorizAbsolute => ∃ n, payload = .col n ∧ n ≠ 0 ∧ IsShort n
  | .cursorPosition => ∃ r c, payload = .position r c ∧ (r ≠ 0 ∧ IsShort r) ∧ c ≠ 0 ∧ IsShort c
  | .setCursorShape => ∃ n, payload = .cursorShape n ∧ IsShort n
  | .eraseInDisplay | .eraseInLine => ∃ n, payload = .eraseMode n ∧ IsShort n
  | .setScrollingRegion => ∃ t b, payload = .scrollRegion t b ∧ IsShort t ∧ IsShort b
  | .sgr => ∃ m, payload = .sgr m ∧ m.Collected
  | .setPaletteColor =>
    ∃ i r g b, payload = .palette i r g b ∧ (0 ≤ i ∧ i ≤ 32767) ∧ r < 256 ∧ g < 256 ∧ b < 256
  | _ => True

/-! ## SGR payloads -/

namespace VtSgrPayload

variable {m : VtSgrPayload}

theorem within_or {x : UInt16} (h : x &&& 0x1FF = x) (f : VtSgrFlag) :
    (x ||| vtSgrFlagBit f) &&& 0x1FF = x ||| vtSgrFlagBit f := by
  have hf : vtSgrFlagBit f &&& 0x1FF = vtSgrFlagBit f := by cases f <;> decide
  rw [or_and, h, hf]

theorem within_and {x : UInt16} (h : x &&& 0x1FF = x) (y : UInt16) : (x &&& y) &&& 0x1FF = x &&& y := by
  rw [UInt16.and_assoc, UInt16.and_comm y, ← UInt16.and_assoc, h]

theorem Collected.mk_set (h : m.Collected) (f : VtSgrFlag) : (m.set f).Collected := by
  obtain ⟨hf, hb, h1, h2, h3, h4, h5, h6⟩ := h
  refine ⟨hf, hb, within_or h1 f, within_and h2 _, ?_, ?_, ?_, fun g => ?_⟩
  · cases f <;> simp_all
  · cases f <;> simp_all
  · cases f <;> simp_all
  · have := h6 g
    by_cases hf : f = g <;> simp_all

theorem Collected.mk_clear (h : m.Collected) {f : VtSgrFlag} (hok : f ≠ .reset ∧ f ≠ .bold ∧ f ≠ .faint) :
    (m.clear f).Collected := by
  obtain ⟨hf, hb, h1, h2, h3, h4, h5, h6⟩ := h
  refine ⟨hf, hb, within_and h1 _, within_or h2 f, ?_, ?_, ?_, fun g => ?_⟩
  · simpa [hok.2.1, hok.2.2] using h3
  · simpa [hok.2.1, hok.2.2] using h4
  · simpa [hok.1] using h5
  · have := h6 g
    by_cases hg : f = g <;> simp_all

theorem Collected.mk_clearWeight (h : m.Collected) : ((m.clear .bold).clear .faint).Collected := by
  obtain ⟨hf, hb, h1, h2, h3, h4, h5, h6⟩ := h
  refine ⟨hf, hb, within_and (within_and h1 _) _, within_or (within_or h2 _) _, ?_, ?_, ?_, fun g => ?_⟩
  · simp
  · simp
  · simpa using h5
  · have := h6 g
    cases g <;> simp_all

theorem Collected.empty : ({} : VtSgrPayload).Collected := by
  refine ⟨True.intro, True.intro, by decide, by decide, by decide, by decide, by decide, fun f => ?_⟩
  cases f <;> decide

/-- Every parameter group keeps the payload in shape. -/
theorem Collected.run (h : m.Collected) {a : SgrAction} (ha : a.Ok) : (a.run m).Collected := by
  cases a with
  | set f => exact h.mk_set f
  | clear f => exact h.mk_clear ha
  | clearWeight => exact h.mk_clearWeight
  | foreground color => exact ⟨ha.2, h.bg, h.set, h.clear, h.bold, h.faint, h.reset, h.exclusive⟩
  | background color => exact ⟨h.fg, ha.2, h.set, h.clear, h.bold, h.faint, h.reset, h.exclusive⟩
  | nothing => exact h

theorem Collected.apply (h : m.Collected) (v : Int) : (m.apply v).Collected := by
  rw [← SgrAction.run_ofParam]
  exact h.run (SgrAction.ok_ofParam v)

theorem Collected.setColor (h : m.Collected) (v : Int) {color : VtSgrColor} (hc : color ≠ .none ∧ color.IsBytes) :
    (m.setColor v color).Collected := by
  rw [← SgrAction.run_ofColor]
  exact h.run (SgrAction.ok_ofColor v hc)

theorem Collected.sgrParams {vs : List Int} {m m' : VtSgrPayload} (h : m.Collected)
    (he : Corehost.sgrParams m vs = some m') : m'.Collected := by
  fun_induction Corehost.sgrParams m vs with
  | case1 m => exact Option.some.inj he ▸ h
  | case2 m v hv => exact Option.some.inj he ▸ h
  | case3 m v hv index rest ih => exact ih (h.setColor v ⟨by simp, u8OfShort_lt index⟩) he
  | case4 => simp at he
  | case5 m v hv _ r g b rest ih =>
    exact ih (h.setColor v ⟨by simp, u8OfShort_lt _, u8OfShort_lt _, u8OfShort_lt _⟩) he
  | case6 => simp at he
  | case7 => simp at he
  | case8 m v rest hv ih => exact ih (h.apply v) he

end VtSgrPayload

/-- A message whose payload is nothing that the parser fills in. -/
def VtMessageId.bare (id : VtMessageId) : Prop := ∀ A payload, Produced A id payload

theorem bare_ite {p : Prop} [Decidable p] {a b : VtMessageId} (ha : a.bare) (hb : b.bare) : (if p then a else b).bare := by
  split
  · exact ha
  · exact hb

theorem bare_dispatchEsc (ch : Char32) : (dispatchEsc ch).bare := by
  unfold dispatchEsc
  repeat' apply bare_ite
  all_goals exact fun _ _ => trivial

theorem bare_dispatchSs3 (ch : Char32) : (dispatchSs3 ch).bare := by
  unfold dispatchSs3
  repeat' apply bare_ite
  all_goals exact fun _ _ => trivial

theorem bare_dispatchCharset (ch : Char32) : (dispatchCharset ch).bare := by
  unfold dispatchCharset
  repeat' apply bare_ite
  all_goals exact fun _ _ => trivial

theorem bare_privateMode (set : Bool) (v : Int) : (privateMode set v).bare := by
  unfold privateMode
  repeat' apply bare_ite
  all_goals exact fun _ _ => trivial

theorem bare_keypadKey (v : Int) : (keypadKey v).bare := by
  unfold keypadKey
  repeat' apply bare_ite
  all_goals exact fun _ _ => trivial

/-! ## Dispatch -/

theorem producedR_ite {A : Char32 → Prop} {c : Prop} [Decidable c] {a b : VtMessageId × VtMessage}
    (ha : Produced A a.1 a.2.payload) (hb : Produced A b.1 b.2.payload) :
    Produced A (if c then a else b).1 (if c then a else b).2.payload := by
  split
  · exact ha
  · exact hb

/-- The parameters of a CSI sequence are values of a `short`. -/
structure CsiParams.InRange (c : CsiParams) : Prop where
  params : ∀ v ∈ c.params, IsShort v
  current : IsShort c.currentParam

namespace CsiParams.InRange

variable {c : CsiParams}

theorem new : InRange {} := by
  refine ⟨fun v hv => ?_, by decide⟩
  rw [List.eq_of_mem_replicate hv]
  decide

theorem getParam (h : c.InRange) (i : Nat) {d : Int} (hd : IsShort d) : IsShort (c.getParam i d) := by
  unfold CsiParams.getParam
  split
  · rcases Nat.lt_or_ge i c.params.length with hi | hi
    · rw [List.getD_eq_getElem?_getD, List.getElem?_eq_getElem hi]
      exact h.params _ (List.getElem_mem hi)
    · rw [List.getD_eq_getElem?_getD, List.getElem?_eq_none hi]
      decide
  · exact hd

theorem clamp_eq {v : Int} (h : IsShort v) : CsiParams.clamp v = v := if_neg (by have := h.2; omega)

theorem addParam (h : c.InRange) : c.addParam.InRange := by
  have h0 : IsShort 0 := by decide
  unfold CsiParams.addParam
  dsimp only
  split
  · refine ⟨fun v hv => ?_, h0⟩
    rcases List.mem_or_eq_of_mem_set hv with hv | rfl
    · exact h.params v hv
    · exact h.current
  · exact ⟨h.params, h0⟩

theorem getPositiveParam (h : c.InRange) (i : Nat) :
    c.getPositiveParam i 1 ≠ 0 ∧ IsShort (c.getPositiveParam i 1) := by
  have hv := h.getParam i (d := 1) (by decide)
  unfold CsiParams.getPositiveParam
  dsimp only
  split
  · decide
  · rw [clamp_eq hv]
    exact ⟨by assumption, hv⟩

end CsiParams.InRange

/-- The messages of a CSI sequence. -/
theorem dispatchCsi_produced (A : Char32 → Prop) {c : CsiParams} (h : c.InRange) (ch : Char32) (msg : VtMessage) :
    Produced A (dispatchCsi c ch msg).1 (dispatchCsi c ch msg).2.payload := by
  have clamped (i : Nat) {d : Int} (hd : IsShort d) : IsShort (CsiParams.clamp (c.getParam i d)) := by
    rw [CsiParams.InRange.clamp_eq (h.getParam i hd)]
    exact h.getParam i hd
  have hp := bare_privateMode
  have hk := bare_keypadKey
  unfold dispatchCsi
  extract_lets priv n₀ n msg count only
  have hn : n ≠ 0 ∧ IsShort n := by
    have hg := h.getParam 0 (d := 1) (by decide)
    have hn₀ : IsShort n₀ := by
      change IsShort (if c.paramIndex > 0 then c.getParam 0 1 else 1)
      split
      · exact hg
      · decide
    change (if n₀ = 0 then 1 else n₀) ≠ 0 ∧ IsShort (if n₀ = 0 then 1 else n₀)
    split
    · decide
    · exact ⟨by assumption, hn₀⟩
  have hcount : ∃ k, VtPayload.count (CsiParams.clamp n) = .count k ∧ k ≠ 0 ∧ IsShort k :=
    ⟨_, rfl, by rw [CsiParams.InRange.clamp_eq hn.2]; exact hn⟩
  have hrow : ∃ k, VtPayload.row (c.getPositiveParam 0 1) = .row k ∧ k ≠ 0 ∧ IsShort k := ⟨_, rfl, h.getPositiveParam 0⟩
  have hcol : ∃ k, VtPayload.col (c.getPositiveParam 0 1) = .col k ∧ k ≠ 0 ∧ IsShort k := ⟨_, rfl, h.getPositiveParam 0⟩
  have hpos : ∃ r k, VtPayload.position (c.getPositiveParam 0 1) (c.getPositiveParam 1 1) = .position r k ∧
      (r ≠ 0 ∧ IsShort r) ∧ k ≠ 0 ∧ IsShort k := ⟨_, _, rfl, h.getPositiveParam 0, h.getPositiveParam 1⟩
  have herase : ∃ k, VtPayload.eraseMode (CsiParams.clamp (c.getParam 0)) = .eraseMode k ∧ IsShort k :=
    ⟨_, rfl, clamped 0 (by decide)⟩
  have hshape : ∃ k, VtPayload.cursorShape (CsiParams.clamp (c.getParam 0)) = .cursorShape k ∧ IsShort k :=
    ⟨_, rfl, clamped 0 (by decide)⟩
  have hregion : ∃ t b, VtPayload.scrollRegion (CsiParams.clamp (c.getParam 0 1)) (CsiParams.clamp (c.getParam 1 0)) =
      .scrollRegion t b ∧ IsShort t ∧ IsShort b := ⟨_, _, rfl, clamped 0 (by decide), clamped 1 (by decide)⟩
  have hstop : VtMessageId.bare .continue_ := fun _ _ => True.intro
  have hresize : VtMessageId.bare .resizeWindow := fun _ _ => True.intro
  have hcpr : VtMessageId.bare .cprResponse := fun _ _ => True.intro
  repeat' apply producedR_ite
  all_goals first
    | exact hp _ _ _ _ | exact hk _ _ _ | exact hcount | exact hrow | exact hcol | exact hpos | exact herase
    | exact hshape | exact hregion | exact True.intro | exact bare_ite hresize hstop _ _
    | exact bare_ite hcpr hstop _ _ | skip
  -- the SGR case
  split
  · rename_i m hm
    exact ⟨m, rfl, VtSgrPayload.Collected.empty.sgrParams hm⟩
  · exact True.intro

/-! ## OSC sequences -/

theorem hexValue_lt {ch : Char32} (h : isHexDigit ch = true) : hexValue ch < 16 := by
  simp only [isHexDigit, isDigit, Bool.or_eq_true, Bool.and_eq_true, decide_eq_true_eq] at h
  have h : ((0x30 : Nat) ≤ ch ∧ ch ≤ (0x39 : Nat) ∨ (0x41 : Nat) ≤ ch ∧ ch ≤ (0x46 : Nat)) ∨
    (0x61 : Nat) ≤ ch ∧ ch ≤ (0x66 : Nat) := h
  rcases h with (⟨h1, h2⟩ | ⟨h1, h2⟩) | ⟨h1, h2⟩ <;> interval_cases ch <;> decide

theorem parseOscHex8_lt (s : List Char32) : (parseOscHex8 s).1 < 256 := by
  unfold parseOscHex8
  dsimp only
  split
  · exact Nat.zero_lt_succ 255
  · have hlen : ((s.take 2).takeWhile isHexDigit).length ≤ 2 :=
      (List.takeWhile_sublist _).length_le.trans (by simp)
    have hall : ∀ ch ∈ (s.take 2).takeWhile isHexDigit, isHexDigit ch = true := fun ch hc =>
      List.mem_takeWhile_imp hc
    generalize (s.take 2).takeWhile isHexDigit = ds at hlen hall
    match ds, hlen with
    | [], _ => exact Nat.zero_lt_succ 255
    | [a], _ =>
      have := hexValue_lt (hall a (by simp))
      simp only [List.foldl_cons, List.foldl_nil]
      omega
    | [a, b], _ =>
      have := hexValue_lt (hall a (by simp))
      have := hexValue_lt (hall b (by simp))
      simp only [List.foldl_cons, List.foldl_nil]
      omega

theorem parseOscDecimal8_range (s : List Char32) : 0 ≤ (parseOscDecimal8 s).1 ∧ (parseOscDecimal8 s).1 ≤ 32767 := by
  unfold parseOscDecimal8
  dsimp only
  split <;> omega

/-- The raw characters of a terminated OSC sequence. -/
def OscRaw (A : Char32 → Prop) (raw : List Char32) : Prop :=
  ∀ rest, raw = 0x1B :: 0x5D :: rest → ∃ body tail, rest = body ++ tail ∧ (tail = [0x07] ∨ tail = [0x1B, 0x5C]) ∧
    IsOscString body ∧ ∀ ch ∈ body, A ch

/-- The string after the code and the semicolon. -/
theorem OscRaw.text {A : Char32 → Prop} {body digits rest tail : List Char32} (hb : IsOscString body)
    (hA : ∀ ch ∈ body, A ch) (ht : tail = [0x07] ∨ tail = [0x1B, 0x5C]) (hd : ∀ ch ∈ digits, isDigit ch = true)
    (he : body ++ tail = digits ++ 0x3B :: rest) :
    ∃ t, untilTerminator rest = some t ∧ IsOscString t ∧ ∀ ch ∈ t, A ch := by
  have he' : body ++ tail = (digits ++ [0x3B]) ++ rest := by simpa using he
  have hscan : ∀ ds : List Char32, (∀ ch ∈ ds, isDigit ch = true) → oscScan .string (ds ++ [0x3B]) = some .string := by
    intro ds
    induction ds with
    | nil => exact fun _ => rfl
    | cons d ds ih =>
      intro hds
      have hdig := hds d List.mem_cons_self
      have hnext : OscPlace.next d .string = some .string := by
        simp only [isDigit, Bool.and_eq_true, decide_eq_true_eq] at hdig
        obtain ⟨h1, h2⟩ : (0x30 : Nat) ≤ d ∧ d ≤ (0x39 : Nat) := hdig
        interval_cases d <;> rfl
      rw [List.cons_append, oscScan, hnext]
      exact ih fun x hx => hds x (List.mem_cons_of_mem _ hx)
  rcases List.append_eq_append_iff.mp he' with ⟨a, ha, htail⟩ | ⟨t, hbody, hrest⟩
  · -- the semicolon is no part of the terminator
    have hmem : (0x3B : Char32) ∉ tail := by rcases ht with rfl | rfl <;> decide
    have hnil : a = [] := by
      by_contra hne
      obtain ⟨b, c, rfl⟩ := (List.eq_nil_or_concat a).resolve_left hne
      rw [List.concat_eq_append, ← List.append_assoc] at ha
      have hc : (0x3B : Char32) = c := by simpa using (List.append_inj' ha rfl).2
      exact hmem (by rw [htail]; simp [hc])
    subst hnil
    rw [List.nil_append] at htail
    rw [← htail]
    exact ⟨[], untilTerminator_append ht [] .string rfl, rfl, by simp⟩
  · rw [hbody, IsOscString, oscScan_append, hscan digits hd] at hb
    refine ⟨t, ?_, hb, fun ch hc => hA ch (by rw [hbody]; simp [hc])⟩
    rw [hrest]
    exact untilTerminator_append ht t .string hb

/-- The messages of an OSC sequence. -/
theorem dispatchOsc_produced {A : Char32 → Prop} {raw : List Char32} (h : OscRaw A raw) (payload : VtPayload) :
    Produced A (dispatchOsc raw payload).1 (dispatchOsc raw payload).2 := by
  unfold dispatchOsc
  split
  · rename_i x xs
    obtain ⟨body, tail, he, ht, hb, hA⟩ := h _ rfl
    simp only [List.drop_succ_cons, List.drop_zero]
    split
    · rename_i rest hrest
      have hsplit : body ++ tail = (x :: xs).takeWhile isDigit ++ 0x3B :: rest := by
        rw [← hrest, List.prefix_iff_eq_append.mp (List.takeWhile_prefix _), he]
      obtain ⟨t, htext, htitle, htA⟩ := OscRaw.text hb hA ht (fun ch hc => List.mem_takeWhile_imp hc) hsplit
      rw [htext]
      dsimp only
      repeat' split
      all_goals first
        | exact True.intro
        | exact ⟨t, rfl, htitle, htA⟩
        | exact ⟨_, _, _, _, rfl, parseOscDecimal8_range _, parseOscHex8_lt _, parseOscHex8_lt _, parseOscHex8_lt _⟩
    · exact True.intro
  · exact True.intro

/-! ## What the parser keeps -/

namespace VtParser

variable {A : Char32 → Prop} {p : VtParser} {ch : Char32}

/-- Between two characters the parameters are values of a `short`, and the raw
characters of a string have been read as such. -/
structure Held (A : Char32 → Prop) (p : VtParser) : Prop where
  steady : Steady p
  csi : p.csi.InRange
  raw : ∀ ch ∈ p.raw, A ch
  first : p.raw = [0x1B] → p.mode = .esc
  string : ∀ body pl, p.raw = 0x1B :: 0x5D :: body → p.mode = OscPlace.mode pl → oscScan .string body = some pl

theorem held_new : Held A {} :=
  ⟨steady_new, CsiParams.InRange.new, by simp, by simp, fun body pl h => by simp at h⟩

theorem parseEsc_place (p : VtParser) {pl : OscPlace} (hid : (p.parseEsc ch).1 = .continue_) (hpm : p.mode = .esc)
    (hpl : (p.parseEsc ch).2.mode = pl.mode) : OscPlace.afterEscape ch = some pl := by
  unfold parseEsc at hid hpl
  unfold OscPlace.afterEscape
  by_cases c1 : isC0OrDel ch = true
  · rw [if_pos c1] at hid
    simp at hid
  rw [if_neg c1] at hid hpl
  by_cases c2 : ch = 0x5B
  · rw [if_pos c2] at hpl
    cases pl <;> simp [OscPlace.mode] at hpl
  rw [if_neg c2] at hid hpl
  by_cases c3 : ch = 0x5D
  · rw [if_pos c3] at hpl ⊢
    cases pl <;> simp [OscPlace.mode] at hpl
    rfl
  rw [if_neg c3] at hid hpl ⊢
  by_cases c4 : ch = 0x4F
  · rw [if_pos c4] at hpl
    cases pl <;> simp [OscPlace.mode] at hpl
  rw [if_neg c4] at hid hpl
  by_cases c5 : ch = 0x28
  · rw [if_pos c5] at hpl ⊢
    simp only [hpm] at hpl
    cases pl <;> simp [OscPlace.mode] at hpl
    rfl
  rw [if_neg c5] at hid
  exfalso
  dsimp only at hid
  split at hid
  · exact finishSeq_ne _ _ hid
  · split at hid
    · simp at hid
    · exact finishSeq_ne _ _ hid

theorem parseCsi_place (p : VtParser) {pl : OscPlace} (hid : (p.parseCsi ch).1 = .continue_) (hpm : p.mode = .csi) :
    (p.parseCsi ch).2.mode ≠ pl.mode := by
  have hne : ParserMode.csi ≠ pl.mode := by cases pl <;> decide
  unfold parseCsi at hid ⊢
  cases hc : classifyCsiChar ch <;> simp only [hc] at hid ⊢
  case control | invalid => simp at hid
  case final => exact absurd hid (finishSeq_ne _ _)
  all_goals simpa only [hpm] using hne

theorem parseOsc_place (p : VtParser) {pl : OscPlace} (hid : (p.parseOsc ch).1 = .continue_) (hpm : p.mode = .osc)
    (hpl : (p.parseOsc ch).2.mode = pl.mode) : OscPlace.next ch .string = some pl := by
  unfold OscPlace.next
  cases hc : isC0OrDel ch
  · have hesc : ch ≠ 0x1B := by rintro rfl; simp [isC0OrDel] at hc
    rw [parseOsc, if_neg (by simp [hc])] at hpl
    have hmode : (p.parseOsc ch).2.mode = .osc := by
      rw [parseOsc, if_neg (by simp [hc])]
      repeat' split
      all_goals exact hpm
    rw [parseOsc, if_neg (by simp [hc]), hpl] at hmode
    rw [if_neg hesc, if_neg (by simp)]
    cases pl <;> simp [OscPlace.mode] at hmode
    rfl
  · rw [parseOsc, if_pos hc] at hid hpl
    by_cases c1 : ch = 0x07
    · rw [if_pos c1] at hid
      exact absurd hid (finishSeq_ne _ _)
    rw [if_neg c1] at hid hpl
    by_cases c2 : ch = 0x1B
    · rw [if_pos c2] at hpl ⊢
      cases pl <;> simp [OscPlace.mode] at hpl
      rfl
    · rw [if_neg c2] at hid
      simp at hid

theorem parseOscSt_place (p : VtParser) {pl : OscPlace} (hid : (p.parseOscSt ch).1 = .continue_)
    (hpl : (p.parseOscSt ch).2.mode = pl.mode) : OscPlace.next ch .stringEscape = some pl := by
  unfold OscPlace.next
  rw [parseOscSt] at hid hpl
  by_cases c1 : ch = 0x5C
  · rw [if_pos c1] at hid
    exact absurd hid (finishSeq_ne _ _)
  · rw [if_neg c1] at hid hpl ⊢
    exact parseEsc_place _ hid rfl hpl

theorem parseSs3_ne (p : VtParser) : (p.parseSs3 ch).1 ≠ .continue_ := by
  unfold parseSs3
  split
  · simp
  · split
    · exact finishSeq_ne _ _
    · simp

/-- A character that leaves the parser in a string or in an escape sequence. -/
theorem parseSequenceChar_place (hm : p.mode ≠ .ground) (hid : (p.parseSequenceChar ch).1 = .continue_) {pl : OscPlace}
    (hpl : (p.parseSequenceChar ch).2.mode = pl.mode) : ∃ pl₀ : OscPlace, p.mode = pl₀.mode ∧ pl₀.next ch = some pl := by
  rw [parseSequenceChar] at hid hpl
  cases h : p.mode with
  | ground => exact absurd h hm
  | esc =>
    simp only [h] at hid hpl
    exact ⟨.escape, rfl, parseEsc_place _ hid rfl hpl⟩
  | csi =>
    simp only [h] at hid hpl
    exact absurd hpl (parseCsi_place _ hid rfl)
  | osc =>
    simp only [h] at hid hpl
    exact ⟨.string, rfl, parseOsc_place _ hid rfl hpl⟩
  | oscSt =>
    simp only [h] at hid hpl
    exact ⟨.stringEscape, rfl, parseOscSt_place _ hid hpl⟩
  | ss3 =>
    simp only [h] at hid
    exact absurd hid (parseSs3_ne _)

theorem InRange_withDigit {c : CsiParams} (h : c.InRange) (v : Int) (b : Bool) :
    CsiParams.InRange { c with currentParam := i16 v, hasParam := b } := ⟨h.params, isShort_i16 v⟩

theorem finishSeq_csi (p : VtParser) (id : VtMessageId) : (finishSeq p id).2.csi = p.csi := by
  unfold finishSeq
  split <;> rfl

theorem parseEsc_csi (p : VtParser) (h : p.csi.InRange) : (p.parseEsc ch).2.csi.InRange := by
  have hi (i : Char32) : CsiParams.InRange { p.csi with intermediate := i } := ⟨h.params, h.current⟩
  unfold parseEsc
  dsimp only
  repeat' split
  all_goals first
    | exact h | exact CsiParams.InRange.new | exact hi _ | (rw [finishSeq_csi]; exact h) | (rw [finishSeq_csi]; exact hi _)

theorem parseSequenceChar_csi (h : p.csi.InRange) : (p.parseSequenceChar ch).2.csi.InRange := by
  unfold parseSequenceChar
  dsimp only
  split
  · exact h
  · exact parseEsc_csi _ h
  · unfold parseCsi
    split
    · exact CsiParams.InRange.new
    · exact InRange_withDigit h _ _
    · exact h.addParam
    · exact ⟨h.params, h.current⟩
    · exact ⟨h.params, h.current⟩
    · rw [finishSeq_csi]
      exact CsiParams.InRange.new
    · exact CsiParams.InRange.new
  · unfold parseOsc parseOscEnd
    dsimp only
    repeat' split
    all_goals first | exact h | (rw [finishSeq_csi]; exact h)
  · unfold parseOscSt parseOscEnd
    dsimp only
    split
    · rw [finishSeq_csi]
      exact h
    · exact parseEsc_csi _ h
  · unfold parseSs3
    repeat' split
    all_goals first | exact h | (rw [finishSeq_csi]; exact h)

/-! ## Messages of a sequence -/

theorem finishSeq_produced (p : VtParser) {id : VtMessageId} (h : Produced A id p.msg.payload) :
    Produced A (finishSeq p id).1 (finishSeq p id).2.msg.payload := by
  unfold finishSeq
  split
  · exact True.intro
  · exact h

theorem parseEsc_produced (p : VtParser) : Produced A (p.parseEsc ch).1 (p.parseEsc ch).2.msg.payload := by
  have h1 := bare_dispatchEsc ch
  have h2 := bare_dispatchCharset ch
  unfold parseEsc
  dsimp only
  repeat' split
  all_goals first
    | exact True.intro | exact finishSeq_produced _ (h1 _ _) | exact finishSeq_produced _ (h2 _ _)

theorem parseOscEnd_produced (p : VtParser) (h : OscRaw A (p.raw.drop p.seqStart)) :
    Produced A p.parseOscEnd.1 p.parseOscEnd.2.msg.payload :=
  finishSeq_produced _ (dispatchOsc_produced h _)

/-- The raw characters of a terminated string. -/
theorem Held.oscRaw (h : Held A p) {ch : Char32} (ht : p.mode = .osc ∧ ch = 0x07 ∨ p.mode = .oscSt ∧ ch = 0x5C) :
    OscRaw A (p.raw ++ [ch]) := by
  intro rest hrest
  have hm : p.mode ≠ .ground := by rcases ht with ⟨h, -⟩ | ⟨h, -⟩ <;> simp [h]
  have hhead := h.steady.inside hm
  have hfirst := h.first
  have hA := h.raw
  have hstring := h.string
  match hr : p.raw with
  | [] => simp [hr] at hhead
  | [a] =>
    have ha : a = 0x1B := by simpa [hr] using hhead
    subst ha
    have := hfirst hr
    rcases ht with ⟨h, -⟩ | ⟨h, -⟩ <;> simp [h] at this
  | a :: b :: body =>
    rw [hr] at hrest hA
    simp only [List.cons_append, List.cons.injEq] at hrest
    obtain ⟨rfl, rfl, rfl⟩ := hrest
    have hbA : ∀ x ∈ body, A x := fun x hx => hA x (by simp [hx])
    rcases ht with ⟨hosc, rfl⟩ | ⟨hst, rfl⟩
    · exact ⟨body, [0x07], rfl, .inl rfl, hstring body .string hr hosc, hbA⟩
    · obtain ⟨b, rfl, hb⟩ := oscScan_stringEscape (hstring body .stringEscape hr hst)
      exact ⟨b, [0x1B, 0x5C], by simp, .inr rfl, hb, fun x hx => hbA x (by simp [hx])⟩

/-- A message of a sequence. -/
theorem parseSequenceChar_produced (h : Held A p) :
    Produced A (p.parseSequenceChar ch).1 (p.parseSequenceChar ch).2.msg.payload := by
  have h0 := h.steady.seqStart
  unfold parseSequenceChar
  dsimp only
  split
  · exact True.intro
  · exact parseEsc_produced _
  · unfold parseCsi
    split
    case h_6 => exact finishSeq_produced _ (dispatchCsi_produced A h.csi.addParam ch _)
    all_goals exact True.intro
  · rename_i hosc
    unfold parseOsc
    split
    · split
      · rename_i hch
        apply parseOscEnd_produced
        rw [h0, List.drop_zero]
        exact h.oscRaw (.inl ⟨hosc, hch⟩)
      · split <;> exact True.intro
    · dsimp only
      repeat' split
      all_goals exact True.intro
  · rename_i hosc
    unfold parseOscSt
    split
    · rename_i hch
      apply parseOscEnd_produced
      rw [h0, List.drop_zero]
      exact h.oscRaw (.inr ⟨hosc, hch⟩)
    · exact parseEsc_produced _
  · have h1 := bare_dispatchSs3 ch
    unfold parseSs3
    repeat' split
    all_goals first | exact True.intro | exact finishSeq_produced _ (h1 _ _)

/-! ## Runs -/

theorem classifyGroundChar_control (h : isC0OrDel ch = true) : classifyGroundChar ch ≠ .printable := by
  intro hk
  unfold classifyGroundChar at hk
  split at hk
  · rename_i hp
    simp only [isC0OrDel, Bool.or_eq_true, decide_eq_true_eq, beq_iff_eq] at h
    rcases h with h | h
    · exact absurd hp.1 (Nat.not_lt.mpr h)
    · exact hp.2 h
  · repeat' split at hk
    all_goals simp at hk

theorem parseGroundControl_produced (p : VtParser) (hch : isC0OrDel ch = true) (hA : A ch) :
    Produced A (p.parseGroundControl ch).1 (p.parseGroundControl ch).2.msg.payload := by
  unfold parseGroundControl
  dsimp only
  cases hk : classifyGroundChar ch
  all_goals simp only [reduceCtorEq, or_self, or_false, or_true, if_true, if_false, controlIdFromGroundKind]
  case carriageReturn | lineFeed => rfl
  case tab => exact ⟨1, rfl, by decide, by decide⟩
  case printable => exact absurd hk (classifyGroundChar_control hch)
  case otherControl => exact ⟨ch, rfl, hk, hA⟩
  all_goals exact True.intro

theorem Held.reset (h : p.csi.InRange) : Held A p.reset :=
  ⟨steady_reset p, h, by simp [VtParser.reset], by simp [VtParser.reset], fun body pl hr => by simp [VtParser.reset] at hr⟩

theorem parseGroundControl_csi (p : VtParser) (ch : Char32) : (p.parseGroundControl ch).2.csi = p.csi := by
  unfold parseGroundControl
  dsimp only
  repeat' split
  all_goals rfl

theorem Held.advance_csi (h : Held A p) (ch : Char32) : (p.advance ch).2.csi.InRange := by
  unfold advance
  split
  · split
    · rw [parseGroundControl_csi]
      exact h.csi
    · exact h.csi
  · exact parseSequenceChar_csi h.csi

/-- A character that completes no message. -/
theorem Held.advance_continue (h : Held A p) (hA : A ch) (hid : (p.advance ch).1 = .continue_) : Held A (p.advance ch).2 := by
  have hsteady : Steady (p.advance ch).2 := by
    have := h.steady.next ch
    unfold charStep at this
    dsimp only at this
    rwa [if_pos hid] at this
  have hcsi := h.advance_csi ch
  by_cases hm : p.mode = .ground
  · rw [advance, if_pos hm] at hid hsteady hcsi ⊢
    by_cases hch : isC0OrDel ch = true
    · rw [if_pos hch] at hid hsteady hcsi ⊢
      obtain ⟨h1, rfl⟩ := h.steady.parseGroundControl_continue hm hid
      rw [h1] at hsteady hcsi ⊢
      exact ⟨hsteady, hcsi, by simpa using hA, fun _ => rfl, fun body pl hr => by simp at hr⟩
    · rw [if_neg hch] at hid
      simp at hid
  · rw [advance, if_neg hm] at hid hsteady hcsi ⊢
    have hraw := (parseSequenceChar_steps h.steady.seqStart hm ch).raw
    have hhead := h.steady.inside hm
    refine ⟨hsteady, hcsi, fun x hx => ?_, fun hr => ?_, fun body pl hr hpl => ?_⟩
    · rw [hraw] at hx
      rcases List.mem_append.mp hx with hx | hx
      · exact h.raw x hx
      · exact List.mem_singleton.mp hx ▸ hA
    · rw [hraw] at hr
      cases hp : p.raw with
      | nil => simp [hp] at hhead
      | cons a l => simp [hp] at hr
    · obtain ⟨pl₀, hpm, hnext⟩ := parseSequenceChar_place hm hid hpl
      rw [hraw] at hr
      dsimp only at hr
      have hstring := h.string
      have hfirst := h.first
      rcases hp : p.raw with _ | ⟨a, _ | ⟨b, l⟩⟩
      · simp [hp] at hhead
      · rw [hp] at hr hhead
        simp only [List.cons_append, List.nil_append, List.cons.injEq] at hr
        obtain ⟨rfl, rfl, rfl⟩ := hr
        have hesc := hfirst hp
        rw [hpm] at hesc
        cases pl₀ <;> simp [OscPlace.mode] at hesc
        simpa [OscPlace.next, OscPlace.afterEscape, oscScan] using hnext
      · rw [hp] at hr
        simp only [List.cons_append, List.cons.injEq] at hr
        obtain ⟨rfl, rfl, rfl⟩ := hr
        rw [oscScan_append, hstring l pl₀ hp hpm]
        simp [oscScan, hnext]

theorem Held.next (h : Held A p) (hA : A ch) : Held A (charStep p ch).2 := by
  unfold charStep
  dsimp only
  split
  · rename_i hid
    exact h.advance_continue hA hid
  · exact Held.reset (h.advance_csi ch)

theorem Held.outputs (h : Held A p) (hA : A ch) : ∀ m ∈ (charStep p ch).1, Produced A m.id m.message.payload := by
  intro m hm
  unfold charStep at hm
  dsimp only at hm
  split at hm
  · simp at hm
  · rw [List.mem_singleton.mp hm]
    unfold advance
    split
    · split
      · exact parseGroundControl_produced p (by assumption) hA
      · exact True.intro
    · exact parseSequenceChar_produced h

end VtParser

/-- Every message of a stream is a message that the parser can produce. -/
theorem feed_produced {A : Char32 → Prop} {input : List Char32} (hA : ∀ ch ∈ input, A ch) :
    ∀ m ∈ (VtParser.feed {} input).1, m.id ≠ .continueText → Produced A m.id m.message.payload := by
  intro m hm hid
  have hrun : m ∈ (run VtParser.charStep {} input).1 := by
    rw [← VtParser.feed_agrees.output {} input VtParser.steady_new, List.mem_flatMap]
    exact ⟨m, hm, by rw [Emitted.split_of_ne hid]; exact List.mem_singleton_self m⟩
  exact run_outputs (fun _ _ h hA => VtParser.Held.next h hA) (fun _ _ h hA => VtParser.Held.outputs h hA) input
    VtParser.held_new hA m hrun

end Corehost

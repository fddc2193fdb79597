import Corehost.Vt.State
import Corehost.Vt.Win32Key

/-!
# Titles

The window title of an OSC sequence, `ESC ] code ; title BEL` or with
`ESC \` at its end. `_parse_osc` collects the code in a `short` and goes on
after an ESC that begins another string, and `_dispatch_osc` takes the title
from the raw characters of the whole sequence.

* `SetsTitle`: the title of a string, which is that of the last one in it;
* `oscTitle_iff`: the title that `_dispatch_osc` finds;
* `osc_title_iff`: which strings set the title that they should.
-/

namespace Corehost

open Lib Lib.Transducer

/-! ## The title of a string -/

/-- The number that the characters of a code stand for. -/
def oscCodeOf (digits : List Char32) : Nat := digits.foldl (fun (v : Nat) ch => v * 10 + (ch - 0x30)) 0

/-- `code ; t` with the code 0 or 2 and without a control character. -/
def IsTitleString (s t : List Char32) : Prop :=
  ∃ digits, s = digits ++ 0x3B :: t ∧ (∀ ch ∈ digits, isDigit ch = true) ∧ (oscCodeOf digits = 0 ∨ oscCodeOf digits = 2) ∧
    ∀ ch ∈ t, isC0OrDel ch = false

/-- The string behind the last `ESC ]` sets the title `t`. `body` is what
follows the first one. -/
def SetsTitle (body t : List Char32) : Prop :=
  IsTitleString body t ∨ ∃ before s, body = before ++ 0x1B :: 0x5D :: s ∧ IsTitleString s t

def IsTerminator (term : List Char32) : Prop := term = [0x07] ∨ term = [0x1B, 0x5C]

/-- The title that a message sets. -/
def Emitted.title? (m : Emitted) : Option (List Char32) :=
  match m.id, m.message.payload with
  | .setWindowTitle, .title t => some t
  | _, _ => none

/-- The title that the first message sets. -/
def firstTitle (ms : List Emitted) : Option (List Char32) := ms.head?.bind Emitted.title?

/-- The messages of `ESC ] w`: the first one sets the title of the string at
the start of `w`, and no other. -/
def TitleRight (w : List Char32) (ms : List Emitted) : Prop :=
  ∀ t, firstTitle ms = some t ↔
    ∃ body term rest, w = body ++ term ++ rest ∧ IsOscString body ∧ IsTerminator term ∧ SetsTitle body t

/-- The code at the start of the string is 0 or 2 modulo 2^16. -/
def StartsLikeTitle (body : List Char32) : Prop :=
  ∃ digits t, body = digits ++ 0x3B :: t ∧ (∀ ch ∈ digits, isDigit ch = true) ∧
    (oscCodeOf digits % 0x10000 = 0 ∨ oscCodeOf digits % 0x10000 = 2)

/-- A string that nothing interrupts has a code that is 0 or 2 when it is so
modulo 2^16. One that other strings interrupt sets no title, and the first of
them does not look as if it did. -/
structure Harmless (body : List Char32) : Prop where
  code : 0x1B ∉ body → ∀ digits t, body = digits ++ 0x3B :: t → (∀ ch ∈ digits, isDigit ch = true) →
    oscCodeOf digits % 0x10000 = 0 ∨ oscCodeOf digits % 0x10000 = 2 → oscCodeOf digits = 0 ∨ oscCodeOf digits = 2
  interrupted : 0x1B ∈ body → ¬ StartsLikeTitle body ∧ ¬ ∃ t, SetsTitle body t

/-! ## What `_dispatch_osc` finds -/

variable {body term digits s t rest : List Char32} {ch : Char32}

theorem shortOf_eq (digits : List Char32) : shortOf digits = i16 (oscCodeOf digits) := by
  have h := foldl_shortOf digits 0
  rwa [show i16 ((0 : Nat) : Int) = 0 from rfl] at h

theorem shortOf_title : (shortOf digits = 0 ∨ shortOf digits = 2) ↔
    (oscCodeOf digits % 0x10000 = 0 ∨ oscCodeOf digits % 0x10000 = 2) := by
  rw [shortOf_eq]
  unfold i16
  rw [Int.bmod_def]
  omega

/-- The code of a string is what its digits are. -/
theorem takeWhile_digits (hd : ∀ ch ∈ digits, isDigit ch = true) (rest : List Char32) :
    (digits ++ 0x3B :: rest).takeWhile isDigit = digits := by
  rw [List.takeWhile_append_of_pos hd, List.takeWhile_cons_of_neg (by decide), List.append_nil]

theorem digits_unique {digits' t' : List Char32} (hd : ∀ ch ∈ digits, isDigit ch = true)
    (hd' : ∀ ch ∈ digits', isDigit ch = true) (h : digits ++ 0x3B :: t = digits' ++ 0x3B :: t') : digits = digits' ∧ t = t' := by
  have hdigits : digits = digits' := by rw [← takeWhile_digits hd t, h, takeWhile_digits hd' t']
  subst hdigits
  exact ⟨rfl, (List.cons.inj (List.append_cancel_left h)).2⟩

/-- The code and the semicolon leave the parser in the string. -/
theorem oscScan_code (hd : ∀ ch ∈ digits, isDigit ch = true) : oscScan .string (digits ++ [0x3B]) = some .string := by
  refine RoundTrip.isOscString_plain fun ch hch => ?_
  rcases List.mem_append.mp hch with h | h
  · exact RoundTrip.isC0OrDel_of_isHexDigit (by rw [isHexDigit, hd ch h, Bool.true_or, Bool.true_or])
  · rw [List.mem_singleton.mp h]
    rfl

/-- The title that `_dispatch_osc` finds in a sequence. -/
def oscTitle (seq : List Char32) : Option (List Char32) :=
  match dispatchOsc seq .none with
  | (.setWindowTitle, .title t) => some t
  | _ => none

theorem oscTitle_code (hd : ∀ ch ∈ digits, isDigit ch = true) (rest : List Char32) :
    oscTitle (0x1B :: 0x5D :: (digits ++ 0x3B :: rest)) =
      if shortOf digits = 0 ∨ shortOf digits = 2 then untilTerminator rest else none := by
  obtain ⟨x, xs, hx⟩ : ∃ x xs, digits ++ 0x3B :: rest = x :: xs := by
    cases digits with
    | nil => exact ⟨_, _, rfl⟩
    | cons d ds => exact ⟨_, _, rfl⟩
  have hdigits : (x :: xs).takeWhile isDigit = digits := by rw [← hx, takeWhile_digits hd]
  have hdrop : (x :: xs).drop digits.length = 0x3B :: rest := by rw [← hx, List.drop_left]
  have hfold : digits.foldl (fun code ch => i16 (code * 10 + Int.ofNat (ch - 0x30))) (0 : Int) = shortOf digits := rfl
  rw [hx, oscTitle, dispatchOsc]
  simp only [List.drop_succ_cons, List.drop_zero, hdigits, hdrop, hfold]
  cases untilTerminator rest with
  | none =>
    dsimp only
    split_ifs <;> rfl
  | some s =>
    dsimp only
    by_cases htitle : shortOf digits = 0 ∨ shortOf digits = 2
    · rw [if_neg (by omega), if_pos htitle, if_pos htitle]
    · rw [if_neg htitle, if_neg htitle]
      split_ifs <;> rfl

/-- A sequence that sets a title has a code and a semicolon. -/
theorem oscTitle_some {seq : List Char32} (h : oscTitle (0x1B :: 0x5D :: seq) = some t) :
    ∃ digits rest, seq = digits ++ 0x3B :: rest ∧ ∀ ch ∈ digits, isDigit ch = true := by
  cases seq with
  | nil => cases h
  | cons x xs =>
    have hsplit : (x :: xs).takeWhile isDigit ++ (x :: xs).drop ((x :: xs).takeWhile isDigit).length = x :: xs :=
      List.prefix_iff_eq_append.mp (List.takeWhile_prefix _)
    have hdispatch : (dispatchOsc (0x1B :: 0x5D :: x :: xs) .none).1 ≠ .continue_ := by
      intro hc
      rw [oscTitle] at h
      generalize dispatchOsc (0x1B :: 0x5D :: x :: xs) .none = r at h hc
      obtain ⟨id, payload⟩ := r
      obtain rfl : id = .continue_ := hc
      cases h
    rw [dispatchOsc] at hdispatch
    simp only [List.drop_succ_cons, List.drop_zero] at hdispatch
    split at hdispatch
    · rename_i rest hrest
      rw [hrest] at hsplit
      exact ⟨_, rest, hsplit.symm, fun ch hch => List.mem_takeWhile_imp hch⟩
    · exact absurd rfl hdispatch

/-- The terminator has no semicolon, so the semicolon of the code is in the body. -/
theorem body_of_code (ht : IsTerminator term) (h : body ++ term = digits ++ 0x3B :: rest) :
    ∃ t, body = digits ++ 0x3B :: t ∧ rest = t ++ term := by
  have h' : body ++ term = (digits ++ [0x3B]) ++ rest := by rw [h, List.append_assoc, List.singleton_append]
  rcases List.append_eq_append_iff.mp h' with ⟨c, hdigits, hterm⟩ | ⟨t, hbody, hrest⟩
  · rcases List.eq_nil_or_concat c with rfl | ⟨c, x, rfl⟩
    · exact ⟨[], by rw [hdigits, List.append_nil], by rw [List.nil_append, hterm, List.nil_append]⟩
    · exfalso
      rw [List.concat_eq_append, ← List.append_assoc] at hdigits
      obtain rfl : 0x3B = x := (List.singleton_inj.mp (List.append_inj_right' hdigits rfl))
      have hmem : (0x3B : Char32) ∈ term := by
        rw [hterm]
        simp only [List.concat_eq_append, List.mem_append, List.mem_singleton, or_true, true_or]
      rcases ht with rfl | rfl <;> exact absurd hmem (by decide)
  · exact ⟨t, by rw [hbody, List.append_assoc, List.singleton_append], hrest⟩

/-- What `_dispatch_osc` takes for a title: everything up to the terminator. -/
theorem oscTitle_iff (hb : IsOscString body) (ht : IsTerminator term) :
    oscTitle (0x1B :: 0x5D :: (body ++ term)) = some t ↔
      ∃ digits, body = digits ++ 0x3B :: t ∧ (∀ ch ∈ digits, isDigit ch = true) ∧
        (oscCodeOf digits % 0x10000 = 0 ∨ oscCodeOf digits % 0x10000 = 2) := by
  have hfind {digits t : List Char32} (hd : ∀ ch ∈ digits, isDigit ch = true) (hbody : body = digits ++ 0x3B :: t) :
      oscTitle (0x1B :: 0x5D :: (body ++ term)) = if shortOf digits = 0 ∨ shortOf digits = 2 then some t else none := by
    have hscan : oscScan .string t = some .string := by
      rw [IsOscString, hbody, ← List.singleton_append, ← List.append_assoc, oscScan_append, oscScan_code hd] at hb
      exact hb
    rw [hbody, List.append_assoc, List.cons_append, oscTitle_code hd, untilTerminator_append ht t .string hscan]
  constructor
  · intro h
    obtain ⟨digits, rest, hseq, hd⟩ := oscTitle_some h
    obtain ⟨t', hbody, -⟩ := body_of_code ht hseq
    rw [hfind hd hbody] at h
    split_ifs at h with hcode
    obtain rfl := Option.some_inj.mp h
    exact ⟨digits, hbody, hd, shortOf_title.mp hcode⟩
  · rintro ⟨digits, hbody, hd, hcode⟩
    rw [hfind hd hbody, if_pos (shortOf_title.mpr hcode)]

/-! ## The strings that set the right title -/

theorem not_esc_of_plain (h : ∀ ch ∈ t, isC0OrDel ch = false) : (0x1B : Char32) ∉ t := fun hmem =>
  absurd (h _ hmem) (by decide)

/-- An open string has no control character but ESC. -/
theorem plain_of_oscScan : ∀ {s : List Char32}, IsOscString s → (0x1B : Char32) ∉ s → ∀ ch ∈ s, isC0OrDel ch = false
  | [], _, _ => fun ch hch => absurd hch List.not_mem_nil
  | c :: s, hs, hesc => by
    rw [List.mem_cons, not_or] at hesc
    rw [IsOscString, oscScan, OscPlace.next, if_neg (Ne.symm hesc.1)] at hs
    split at hs
    · cases hs
    · rename_i hc
      refine List.forall_mem_cons.mpr ⟨Bool.eq_false_iff.mpr hc, ?_⟩
      exact plain_of_oscScan hs hesc.2

/-- The title of a string has no control character. -/
theorem SetsTitle.plain (h : SetsTitle body t) : ∀ ch ∈ t, isC0OrDel ch = false := by
  rcases h with ⟨digits, -, -, -, hplain⟩ | ⟨before, s, -, digits, -, -, -, hplain⟩ <;> exact hplain

theorem mem_of_code {c : Char32} (hd : ∀ ch ∈ digits, isDigit ch = true) (h : c ∈ digits ++ 0x3B :: t)
    (hc : isDigit c = false) (hsemi : c ≠ 0x3B) : c ∈ t := by
  rcases List.mem_append.mp h with hmem | hmem
  · exact absurd (hd c hmem) (Bool.eq_false_iff.mp hc)
  · exact (List.mem_cons.mp hmem).resolve_left hsemi

theorem oscTitle_right_iff (hb : IsOscString body) (ht : IsTerminator term) :
    (∀ t, oscTitle (0x1B :: 0x5D :: (body ++ term)) = some t ↔ SetsTitle body t) ↔ Harmless body := by
  by_cases hesc : (0x1B : Char32) ∈ body
  · -- a title that starts at the first code contains the ESC, and the right one does not
    have hmem {digits t : List Char32} (hd : ∀ ch ∈ digits, isDigit ch = true) (hbody : body = digits ++ 0x3B :: t) :
        (0x1B : Char32) ∈ t := mem_of_code hd (hbody ▸ hesc) (by decide) (by decide)
    constructor
    · intro h
      refine ⟨fun hn => absurd hesc hn, fun _ => ⟨?_, ?_⟩⟩
      · rintro ⟨digits, t, hbody, hd, hcode⟩
        have hset := (h t).mp ((oscTitle_iff hb ht).mpr ⟨digits, hbody, hd, hcode⟩)
        exact not_esc_of_plain hset.plain (hmem hd hbody)
      · rintro ⟨t, hset⟩
        obtain ⟨digits, hbody, hd, -⟩ := (oscTitle_iff hb ht).mp ((h t).mpr hset)
        exact not_esc_of_plain hset.plain (hmem hd hbody)
    · intro h t
      obtain ⟨hstart, hset⟩ := h.interrupted hesc
      refine ⟨fun hfound => ?_, fun hs => absurd ⟨t, hs⟩ hset⟩
      obtain ⟨digits, hbody, hd, hcode⟩ := (oscTitle_iff hb ht).mp hfound
      exact absurd ⟨digits, t, hbody, hd, hcode⟩ hstart
  · have hone : ∀ t, SetsTitle body t ↔ IsTitleString body t := fun t => by
      refine ⟨fun h => h.resolve_right ?_, .inl⟩
      rintro ⟨before, s, rfl, -⟩
      exact hesc (List.mem_append_right _ List.mem_cons_self)
    constructor
    · intro h
      refine ⟨fun _ digits t hbody hd hcode => ?_, fun hmem => absurd hmem hesc⟩
      obtain ⟨digits', hbody', hd', hvalue, -⟩ :=
        (hone t).mp ((h t).mp ((oscTitle_iff hb ht).mpr ⟨digits, hbody, hd, hcode⟩))
      rw [(digits_unique hd hd' (hbody.symm.trans hbody')).1]
      exact hvalue
    · intro h t
      rw [hone t, oscTitle_iff hb ht]
      constructor
      · rintro ⟨digits, hbody, hd, hcode⟩
        refine ⟨digits, hbody, hd, h.code hesc digits t hbody hd hcode, fun ch hch => ?_⟩
        refine plain_of_oscScan hb hesc ch ?_
        rw [hbody]
        exact List.mem_append_right _ (List.mem_cons_of_mem _ hch)
      · rintro ⟨digits, hbody, hd, hvalue, -⟩
        exact ⟨digits, hbody, hd, by omega⟩

/-! ## The end of a string -/

/-- The characters of a string up to its end, from a place in it on. -/
def oscEnd (pl : OscPlace) : List Char32 → Option (List Char32)
  | [] => none
  | ch :: cs =>
    if pl = .string ∧ ch = 0x07 ∨ pl = .stringEscape ∧ ch = 0x5C then some [ch]
    else (pl.next ch).bind fun pl' => (oscEnd pl' cs).map (ch :: ·)

theorem next_ends {pl : OscPlace} (h : pl = .string ∧ ch = 0x07 ∨ pl = .stringEscape ∧ ch = 0x5C) : pl.next ch = none := by
  rcases h with ⟨rfl, rfl⟩ | ⟨rfl, rfl⟩ <;> rfl

theorem oscEnd_append {cs : List Char32} : ∀ {s : List Char32} {pl pl' : OscPlace}, oscScan pl s = some pl' →
    oscEnd pl (s ++ cs) = (oscEnd pl' cs).map (s ++ ·)
  | [], pl, pl', h => by
    obtain rfl := Option.some_inj.mp h
    exact Option.map_id'.symm
  | c :: s, pl, pl', h => by
    rw [oscScan] at h
    obtain ⟨pl₁, hn, hs⟩ := Option.bind_eq_some_iff.mp h
    rw [List.cons_append, oscEnd, if_neg (fun he => by rw [next_ends he] at hn; cases hn), hn, Option.bind_some,
      oscEnd_append hs, Option.map_map]
    rfl

theorem oscEnd_of_string (hb : IsOscString body) (ht : IsTerminator term) (rest : List Char32) :
    oscEnd .string (body ++ term ++ rest) = some (body ++ term) := by
  rw [List.append_assoc, oscEnd_append hb]
  rcases ht with rfl | rfl <;> rfl

/-- The end of a string is that of the string that is open there. -/
theorem oscEnd_some : ∀ {w s : List Char32} {pl : OscPlace}, oscEnd pl w = some s →
    ∃ b ch rest, s = b ++ [ch] ∧ w = s ++ rest ∧
      (oscScan pl b = some .string ∧ ch = 0x07 ∨ oscScan pl b = some .stringEscape ∧ ch = 0x5C)
  | [], s, pl, h => by cases h
  | c :: cs, s, pl, h => by
    rw [oscEnd] at h
    split_ifs at h with hend
    · obtain rfl := Option.some_inj.mp h
      refine ⟨[], c, cs, rfl, rfl, ?_⟩
      rcases hend with ⟨rfl, rfl⟩ | ⟨rfl, rfl⟩
      · exact .inl ⟨rfl, rfl⟩
      · exact .inr ⟨rfl, rfl⟩
    · obtain ⟨pl', hn, hcs⟩ := Option.bind_eq_some_iff.mp h
      obtain ⟨s', hs', rfl⟩ := Option.map_eq_some_iff.mp hcs
      obtain ⟨b, ch, rest, rfl, rfl, hplace⟩ := oscEnd_some hs'
      refine ⟨c :: b, ch, rest, rfl, rfl, ?_⟩
      simpa only [oscScan, hn, Option.bind_some] using hplace

theorem oscEnd_string_some {w : List Char32} (h : oscEnd .string w = some s) :
    ∃ body term rest, w = body ++ term ++ rest ∧ s = body ++ term ∧ IsOscString body ∧ IsTerminator term := by
  obtain ⟨b, ch, rest, rfl, rfl, ⟨hb, rfl⟩ | ⟨hb, rfl⟩⟩ := oscEnd_some h
  · exact ⟨b, [0x07], rest, rfl, rfl, hb, .inl rfl⟩
  · obtain ⟨body, rfl, hbody⟩ := oscScan_stringEscape hb
    exact ⟨body, [0x1B, 0x5C], rest, by simp only [List.append_assoc, List.cons_append, List.nil_append],
      by rw [List.append_assoc]; rfl, hbody, .inr rfl⟩

/-- A sequence is cut in one way only. -/
theorem body_unique {body' term' rest' : List Char32} (hb : IsOscString body) (ht : IsTerminator term)
    (hb' : IsOscString body') (ht' : IsTerminator term') (h : body ++ term ++ rest = body' ++ term' ++ rest') :
    body = body' := by
  have hseq : body ++ term = body' ++ term' := by
    have hend := oscEnd_of_string hb ht rest
    rw [h, oscEnd_of_string hb' ht' rest'] at hend
    exact (Option.some_inj.mp hend).symm
  rcases ht with rfl | rfl <;> rcases ht' with rfl | rfl
  · exact List.append_cancel_right hseq
  · exfalso
    rw [show body' ++ [0x1B, 0x5C] = (body' ++ [0x1B]) ++ [0x5C] by simp] at hseq
    exact absurd (List.append_inj_right' hseq rfl) (by decide)
  · exfalso
    rw [show body ++ [0x1B, 0x5C] = (body ++ [0x1B]) ++ [0x5C] by simp] at hseq
    exact absurd (List.append_inj_right' hseq rfl) (by decide)
  · exact List.append_cancel_right hseq

/-! ## Messages without a title -/

theorem fst_ite_title_ne {α : Type} {c : Prop} [Decidable c] {a b : VtMessageId × α} (ha : a.1 ≠ .setWindowTitle)
    (hb : b.1 ≠ .setWindowTitle) : (if c then a else b).1 ≠ .setWindowTitle := by
  split
  · exact ha
  · exact hb

/-- A message without a payload of its own is no title. -/
theorem title_ne_of_bare {id : VtMessageId} (h : id.bare) : id ≠ .setWindowTitle := by
  rintro rfl
  obtain ⟨t, ht, -⟩ := h (fun _ => True) .none
  cases ht

theorem dispatchCsi_title_ne (c : CsiParams) (ch : Char32) (msg : VtMessage) :
    (dispatchCsi c ch msg).1 ≠ .setWindowTitle := by
  have hp (set : Bool) (v : Int) : privateMode set v ≠ .setWindowTitle := title_ne_of_bare (bare_privateMode set v)
  have hk (v : Int) : keypadKey v ≠ .setWindowTitle := title_ne_of_bare (bare_keypadKey v)
  unfold dispatchCsi
  extract_lets priv n n msg count only
  have hcount (id : VtMessageId) (h : id ≠ .setWindowTitle) : (count id).1 ≠ .setWindowTitle := h
  repeat' apply fst_ite_title_ne
  all_goals first | exact hp _ _ | exact hk _ | exact hcount _ (by decide) | skip
  all_goals split <;> simp

/-- A message that sets no title. -/
def NoTitle (id : VtMessageId) : Prop := id ≠ .continue_ ∧ id ≠ .setWindowTitle

namespace VtParser

variable {p : VtParser}

theorem noTitle_finishSeq (p : VtParser) {id : VtMessageId} (h : id ≠ .setWindowTitle) : NoTitle (finishSeq p id).1 := by
  refine ⟨finishSeq_ne p id, ?_⟩
  exact fst_ite_title_ne nofun h

theorem noTitle_unknown : NoTitle .unknownSequence := ⟨by decide, by decide⟩

/-- A character that does not lead back to a string. -/
theorem parseEsc_leaves (p : VtParser) (hn : OscPlace.afterEscape ch = none) :
    (p.parseEsc ch).1 = .continue_ ∧ ((p.parseEsc ch).2.mode = .csi ∨ (p.parseEsc ch).2.mode = .ss3) ∨
      NoTitle (p.parseEsc ch).1 := by
  have h5d : ch ≠ 0x5D := by
    rintro rfl
    cases hn
  have h28 : ch ≠ 0x28 := by
    rintro rfl
    cases hn
  unfold parseEsc
  rw [if_neg h5d, if_neg h28]
  dsimp only
  split_ifs
  · exact .inr noTitle_unknown
  · exact .inl ⟨rfl, .inl rfl⟩
  · exact .inl ⟨rfl, .inr rfl⟩
  · exact .inr (noTitle_finishSeq _ (title_ne_of_bare (bare_dispatchCharset ch)))
  · exact .inr noTitle_unknown
  · exact .inr (noTitle_finishSeq _ (title_ne_of_bare (bare_dispatchEsc ch)))

theorem parseCsi_stays (p : VtParser) (hm : p.mode = .csi) (ch : Char32) :
    (p.parseCsi ch).1 = .continue_ ∧ (p.parseCsi ch).2.mode = .csi ∨ NoTitle (p.parseCsi ch).1 := by
  unfold parseCsi
  split
  · exact .inr noTitle_unknown
  · exact .inl ⟨rfl, hm⟩
  · exact .inl ⟨rfl, hm⟩
  · exact .inl ⟨rfl, hm⟩
  · exact .inl ⟨rfl, hm⟩
  · exact .inr (noTitle_finishSeq _ (dispatchCsi_title_ne p.csi.addParam ch p.msg))
  · exact .inr noTitle_unknown

theorem parseSs3_ends (p : VtParser) (ch : Char32) : NoTitle (p.parseSs3 ch).1 := by
  unfold parseSs3
  split_ifs
  · exact noTitle_unknown
  · exact noTitle_finishSeq _ (title_ne_of_bare (bare_dispatchSs3 ch))
  · exact noTitle_unknown

/-- The parser is in a control sequence, or one key away from its end. -/
def LeftString (p : VtParser) : Prop := p.mode = .csi ∨ p.mode = .ss3

theorem firstTitle_cons {m : Emitted} {ms : List Emitted} (h : NoTitle m.id) : firstTitle (m :: ms) = none := by
  obtain ⟨id, msg, raw⟩ := m
  rw [firstTitle, List.head?_cons, Option.bind_some]
  unfold Emitted.title?
  split
  · rename_i hid _
    exact absurd hid h.2
  · rfl

theorem charStep_of_continue {q : VtParser} (hm : p.mode ≠ .ground) (hq : p.parseSequenceChar ch = (.continue_, q)) :
    charStep p ch = ([], q) := by
  rw [charStep, advance, if_neg hm, hq]
  rfl

theorem firstTitle_noTitle (hm : p.mode ≠ .ground) (h : NoTitle (p.parseSequenceChar ch).1) (w : List Char32) :
    firstTitle (run charStep p (ch :: w)).1 = none := by
  have hstep : (charStep p ch).1 = [⟨(p.parseSequenceChar ch).1, (p.parseSequenceChar ch).2.msg,
      (p.parseSequenceChar ch).2.rawSequence⟩] := by
    rw [charStep, advance, if_neg hm]
    dsimp only
    rw [if_neg h.1]
  rw [run_cons, hstep]
  exact firstTitle_cons h

/-- Outside a string there is no title. -/
theorem firstTitle_left : ∀ (w : List Char32) {p : VtParser}, p.LeftString → firstTitle (run charStep p w).1 = none
  | [], _, _ => rfl
  | ch :: w, p, hp => by
    have hm : p.mode ≠ .ground := by rcases hp with h | h <;> rw [h] <;> decide
    rcases hp with hcsi | hss3
    · have hchar : p.parseSequenceChar ch = parseCsi { p with raw := p.raw ++ [ch] } ch := by
        rw [parseSequenceChar]
        simp only [hcsi]
      rcases parseCsi_stays { p with raw := p.raw ++ [ch] } hcsi ch with ⟨hid, hmode⟩ | hno
      · rw [run_cons, charStep_of_continue hm (hchar.trans (Prod.ext hid rfl)), List.nil_append]
        exact firstTitle_left w (.inl hmode)
      · exact firstTitle_noTitle hm (hchar ▸ hno) w
    · have hchar : p.parseSequenceChar ch = parseSs3 { p with raw := p.raw ++ [ch] } ch := by
        rw [parseSequenceChar]
        simp only [hss3]
      exact firstTitle_noTitle hm (hchar ▸ parseSs3_ends _ ch) w

/-! ## The first message of a string -/

/-- The character that ends a string. -/
theorem parseSequenceChar_end {pl : OscPlace} (hm : p.mode = pl.mode)
    (hend : pl = .string ∧ ch = 0x07 ∨ pl = .stringEscape ∧ ch = 0x5C) :
    p.parseSequenceChar ch = parseOscEnd { p with raw := p.raw ++ [ch] } := by
  rw [parseSequenceChar]
  rcases hend with ⟨rfl, rfl⟩ | ⟨rfl, rfl⟩ <;> simp only [OscPlace.mode] at hm <;> simp only [hm]
  · exact (if_pos rfl).trans (if_pos rfl)
  · exact if_pos rfl

/-- A character in a string that neither goes on with it nor ends it. -/
theorem parseSequenceChar_leaves {pl : OscPlace} (hm : p.mode = pl.mode) (hn : pl.next ch = none)
    (hend : ¬ (pl = .string ∧ ch = 0x07 ∨ pl = .stringEscape ∧ ch = 0x5C)) :
    (p.parseSequenceChar ch).1 = .continue_ ∧ (p.parseSequenceChar ch).2.LeftString ∨
      NoTitle (p.parseSequenceChar ch).1 := by
  rw [parseSequenceChar]
  cases pl with
  | string =>
    simp only [OscPlace.mode] at hm
    simp only [hm]
    have hbel : ch ≠ 0x07 := fun h => hend (.inl ⟨rfl, h⟩)
    rw [OscPlace.next] at hn
    split_ifs at hn with hesc hc
    rw [parseOsc, if_pos hc, if_neg hbel, if_neg hesc]
    exact .inr noTitle_unknown
  | stringEscape =>
    simp only [OscPlace.mode] at hm
    simp only [hm]
    have hst : ch ≠ 0x5C := fun h => hend (.inr ⟨rfl, h⟩)
    rw [OscPlace.next, if_neg hst] at hn
    rw [parseOscSt, if_neg hst]
    exact parseEsc_leaves _ hn
  | escape =>
    simp only [OscPlace.mode] at hm
    simp only [hm]
    exact parseEsc_leaves _ hn

theorem ne_ground {pl : OscPlace} (hm : p.mode = pl.mode) : p.mode ≠ .ground := by
  rw [hm]
  cases pl <;> decide

/-- The message at the end of a string. -/
theorem firstTitle_end (h : Steady p) {pl : OscPlace} (hm : p.mode = pl.mode)
    (hend : pl = .string ∧ ch = 0x07 ∨ pl = .stringEscape ∧ ch = 0x5C) (w : List Char32) :
    firstTitle (run charStep p (ch :: w)).1 = oscTitle (p.raw ++ [ch]) := by
  have hchar := parseSequenceChar_end hm hend
  have hground := ne_ground hm
  rw [parseOscEnd, h.seqStart, h.msg, List.drop_zero] at hchar
  rw [oscTitle]
  generalize dispatchOsc (p.raw ++ [ch]) .none = r at hchar
  obtain ⟨id, payload⟩ := r
  dsimp only at hchar
  by_cases hid : id = .setWindowTitle
  · subst hid
    obtain ⟨raw, hstep⟩ : ∃ raw, (charStep p ch).1 = [⟨.setWindowTitle, { payload := payload }, raw⟩] := by
      rw [charStep, advance, if_neg hground, hchar]
      exact ⟨_, rfl⟩
    rw [run_cons, hstep]
    cases payload <;> rfl
  · have hno : NoTitle (p.parseSequenceChar ch).1 := hchar ▸ noTitle_finishSeq _ hid
    rw [firstTitle_noTitle hground hno]
    split
    · rename_i heq
      exact absurd (Prod.mk.inj heq).1 hid
    · rfl

/-- The first message of the rest of a string sets the title that
`_dispatch_osc` finds at the end of it. -/
theorem firstTitle_string : ∀ (w : List Char32) {p : VtParser} {pl : OscPlace}, Steady p → p.mode = pl.mode →
    firstTitle (run charStep p w).1 = (oscEnd pl w).bind fun s => oscTitle (p.raw ++ s)
  | [], _, _, _, _ => rfl
  | ch :: w, p, pl, h, hm => by
    have hground := ne_ground hm
    rw [oscEnd]
    by_cases hend : pl = .string ∧ ch = 0x07 ∨ pl = .stringEscape ∧ ch = 0x5C
    · rw [if_pos hend, Option.bind_some]
      exact firstTitle_end h hm hend w
    · rw [if_neg hend]
      cases hn : pl.next ch with
      | some pl' =>
        obtain ⟨hid, hmode, hraw, -, -⟩ := RoundTrip.parseSequenceChar_string hm hn
        have hstep := charStep_of_continue hground (Prod.ext hid rfl)
        have hsteady := hstep ▸ h.next ch
        rw [run_cons, hstep, List.nil_append, firstTitle_string w hsteady hmode, Option.bind_some, Option.bind_map]
        dsimp only
        rw [hraw]
        simp only [Function.comp_def, List.append_assoc, List.singleton_append]
      | none =>
        rw [Option.bind_none, Option.bind_none]
        rcases parseSequenceChar_leaves hm hn hend with ⟨hid, hleft⟩ | hno
        · rw [run_cons, charStep_of_continue hground (Prod.ext hid rfl), List.nil_append]
          exact firstTitle_left w hleft
        · exact firstTitle_noTitle hground hno w

/-- `ESC ]` in ground. -/
theorem run_oscIntroducer (h : Steady p) (hm : p.mode = .ground) :
    ∃ q : VtParser, run charStep p [0x1B, 0x5D] = ([], q) ∧ q.mode = .osc ∧ q.raw = [0x1B, 0x5D] := by
  rw [run_cons, charStep_escape h hm]
  exact ⟨_, rfl, rfl, rfl⟩

theorem title?_of_text {m : Emitted} (h : m.id = .continueText) : m.title? = none := by
  unfold Emitted.title?
  split
  · rename_i hid _
    exact absurd (h.symm.trans hid) (by decide)
  · rfl

/-- A run of text sets no title, so it may be cut. -/
theorem firstTitle_split {ms : List Emitted} (hne : ∀ m ∈ ms, m.text? ≠ some []) :
    firstTitle (ms.flatMap Emitted.split) = firstTitle ms := by
  cases ms with
  | nil => rfl
  | cons m ms =>
    cases ht : m.text? with
    | none =>
      rw [List.flatMap_cons, show m.split = [m] by rw [Emitted.split, ht]]
      rfl
    | some s =>
      cases s with
      | nil => exact absurd ht (hne m List.mem_cons_self)
      | cons ch s =>
        have hid := Emitted.id_of_text? ht
        rw [List.flatMap_cons, Emitted.split_of_text ht]
        exact (title?_of_text (m := m.withText [ch]) hid).trans (title?_of_text hid).symm

/-- The messages of `ESC ] w`, however its characters are cut. -/
theorem titleRight_iff (h : Steady p) (hm : p.mode = .ground) {chunks : List (List Char32)} {w : List Char32}
    (hc : chunks.flatten = 0x1B :: 0x5D :: w) :
    TitleRight w (feedChunks p chunks).1 ↔
      ∀ body term rest, w = body ++ term ++ rest → IsOscString body → IsTerminator term → Harmless body := by
  have hfirst : firstTitle (feedChunks p chunks).1 = (oscEnd .string w).bind fun s => oscTitle (0x1B :: 0x5D :: s) := by
    obtain ⟨q, hq, hmode, hraw⟩ := run_oscIntroducer h hm
    have hsteady : Steady q := by
      have := run_inv (fun p ch (hp : Steady p) => hp.next ch) [0x1B, 0x5D] h
      rwa [hq] at this
    rw [← firstTitle_split (feedChunks_text_ne chunks h), feedChunks, (runChunks_of_agrees feed_agrees chunks h).1, hc,
      show 0x1B :: 0x5D :: w = [0x1B, 0x5D] ++ w from rfl, run_append, hq, List.nil_append,
      firstTitle_string w hsteady (show q.mode = OscPlace.string.mode from hmode), hraw]
    rfl
  unfold TitleRight
  rw [hfirst]
  cases hend : oscEnd .string w with
  | none =>
    have hnone {body term rest : List Char32} (hw : w = body ++ term ++ rest) (hb : IsOscString body)
        (ht : IsTerminator term) : False := by
      rw [hw, oscEnd_of_string hb ht] at hend
      cases hend
    refine ⟨fun _ body term rest hw hb ht => (hnone hw hb ht).elim, fun _ t => ⟨fun ht => absurd ht.symm (Option.some_ne_none t), ?_⟩⟩
    rintro ⟨body, term, rest, hw, hb, ht, -⟩
    exact (hnone hw hb ht).elim
  | some s =>
    obtain ⟨body, term, rest, rfl, rfl, hb, ht⟩ := oscEnd_string_some hend
    have hright : (∀ t, oscTitle (0x1B :: 0x5D :: (body ++ term)) = some t ↔ ∃ body' term' rest',
        body ++ term ++ rest = body' ++ term' ++ rest' ∧ IsOscString body' ∧ IsTerminator term' ∧ SetsTitle body' t) ↔
        ∀ t, oscTitle (0x1B :: 0x5D :: (body ++ term)) = some t ↔ SetsTitle body t := by
      refine forall_congr' fun t => iff_congr Iff.rfl ⟨?_, fun hs => ⟨body, term, rest, rfl, hb, ht, hs⟩⟩
      rintro ⟨body', term', rest', hw, hb', ht', hs⟩
      rwa [body_unique hb ht hb' ht' hw]
    rw [Option.bind_some, hright, oscTitle_right_iff hb ht]
    refine ⟨fun hh body' term' rest' hw hb' ht' => ?_, fun hh => hh body term rest rfl hb ht⟩
    rwa [← body_unique hb ht hb' ht' hw]

end VtParser

/-- A code below 2^16 does no harm. -/
theorem harmless_of_code (hd : ∀ ch ∈ digits, isDigit ch = true) (hesc : (0x1B : Char32) ∉ digits ++ 0x3B :: t)
    (hcode : oscCodeOf digits < 0x10000) : Harmless (digits ++ 0x3B :: t) := by
  refine ⟨fun _ digits' t' h hd' hmod => ?_, fun h => absurd h hesc⟩
  obtain ⟨rfl, -⟩ := digits_unique hd hd' h
  rwa [Nat.mod_eq_of_lt hcode] at hmod

/-! ## Every string -/

/-- After any output that leaves the parser in ground, and however the
characters are cut into chunks, `ESC ] w` sets the title that it should exactly
when the string in it is harmless: a code above 2^16 is not taken for 0 or 2,
and no string that another one interrupts looks like a title. -/
theorem osc_title_iff (before chunks : List (List Char32)) (hg : (VtParser.feedChunks {} before).2.mode = .ground)
    {w : List Char32} (hc : chunks.flatten = 0x1B :: 0x5D :: w) :
    TitleRight w (VtParser.feedChunks (VtParser.feedChunks {} before).2 chunks).1 ↔
      ∀ body term rest, w = body ++ term ++ rest → IsOscString body → IsTerminator term → Harmless body :=
  VtParser.titleRight_iff (VtParser.steady_feedChunks before) hg hc

/-- `ESC ] 2 ; a BEL`, after some text and in two chunks. -/
theorem osc_title_iff_two :
    TitleRight [0x32, 0x3B, 0x61, 0x07]
      (VtParser.feedChunks (VtParser.feedChunks {} [[0x62]]).2 [[0x1B, 0x5D, 0x32], [0x3B, 0x61, 0x07]]).1 := by
  refine (osc_title_iff [[0x62]] _ (by decide) rfl).mpr fun body term rest hw hb ht => ?_
  have hw' : [0x32, 0x3B, 0x61] ++ [0x07] ++ [] = body ++ term ++ rest := hw
  have hdigits : ∀ ch ∈ [0x32], isDigit ch = true := by decide
  have hopen : IsOscString [0x32, 0x3B, 0x61] := rfl
  rw [← body_unique hopen (.inl rfl) hb ht hw']
  exact harmless_of_code hdigits (t := [0x61]) (by decide) (by decide)

/-- `ESC ] 65536 ; x BEL` sets a title, and `ESC ] 0 ; a ESC ] 2 ; b BEL` one
that is not `b`. -/
theorem wrong_titles :
    ¬ TitleRight (chars ['6', '5', '5', '3', '6', ';', 'x'] ++ [0x07])
      (VtParser.feedChunks (VtParser.feedChunks {} []).2
        [0x1B :: 0x5D :: (chars ['6', '5', '5', '3', '6', ';', 'x'] ++ [0x07])]).1 ∧
    ¬ TitleRight (chars ['0', ';', 'a', '\x1b', ']', '2', ';', 'b'] ++ [0x07])
      (VtParser.feedChunks (VtParser.feedChunks {} []).2
        [0x1B :: 0x5D :: (chars ['0', ';', 'a', '\x1b', ']', '2', ';', 'b'] ++ [0x07])]).1 := by
  have hchunk (w : List Char32) : [0x1B :: 0x5D :: w].flatten = 0x1B :: 0x5D :: w := List.append_nil _
  have hiff (w : List Char32) := VtParser.titleRight_iff (VtParser.steady_feedChunks []) rfl (hchunk w)
  refine ⟨(hiff _).not.mpr fun h => ?_, (hiff _).not.mpr fun h => ?_⟩
  · have hopen : IsOscString (chars ['6', '5', '5', '3', '6', ';', 'x']) := rfl
    have hcode := (h _ [0x07] [] (List.append_nil _).symm hopen (.inl rfl)).code (by decide)
      (chars ['6', '5', '5', '3', '6']) (chars ['x']) rfl (by decide) (by decide)
    exact absurd hcode (by decide)
  · have hopen : IsOscString (chars ['0', ';', 'a', '\x1b', ']', '2', ';', 'b']) := rfl
    refine ((h _ [0x07] [] (List.append_nil _).symm hopen (.inl rfl)).interrupted (by decide)).1 ?_
    exact ⟨chars ['0'], chars ['a', '\x1b', ']', '2', ';', 'b'], rfl, by decide, by decide⟩

end Corehost

import Corehost.Parser.Context
import Corehost.Terminal.Utf8Writes
import Corehost.Vt.LineFeeds

/-!
# Where a stream of bytes stops

The bytes that the terminal has been sent can stop inside a control sequence, by
`vt_parser`, or inside a character. The UTF-8 decoder is that of the Unicode
library, of which `ReadsUtf8` says what is used.

* `foldl_decode`: the scanner of `Parser.Context` reads the bytes as it reads
  the characters;
* `pendingChar_append`: of a stream, the character that has begun is all that
  later bytes need;
* `streamEnd_lfToCrlf`: `vt_append_str_lf_to_crlf` does not change where a
  stream stops;
* `apart_iff`: a stream stops between two sequences and two characters.
-/

namespace Corehost

open Lib Lib.Transducer
open Utf8 (Partial isContinuation leadLength)
open VtParser (feed)

/-! ## Characters and bytes -/

/-- A decoder of UTF-8. A byte of ASCII stands for itself wherever it is, and bytes that are not ASCII give characters
that are not, U+FFFD among them. -/
structure ReadsUtf8 (decode : List UInt8 → List Char32) : Prop where
  nil : decode [] = []
  ascii : ∀ (before after : List UInt8) {b : UInt8}, b < 0x80 →
    decode (before ++ b :: after) = decode before ++ b.toNat :: decode after
  wide : ∀ bytes : List UInt8, bytes ≠ [] → (∀ b ∈ bytes, 0x80 ≤ b) → decode bytes ≠ [] ∧ ∀ ch ∈ decode bytes, 0x80 ≤ ch

/-- Induction from one byte of ASCII to the next. -/
theorem ascii_induction {motive : List UInt8 → Prop} (wide : ∀ w, (∀ b ∈ w, 0x80 ≤ b) → motive w)
    (ascii : ∀ w b rest, (∀ x ∈ w, 0x80 ≤ x) → b < 0x80 → motive rest → motive (w ++ b :: rest)) (bytes : List UInt8) :
    motive bytes := by
  have key : ∀ (bytes w : List UInt8), (∀ b ∈ w, 0x80 ≤ b) → motive (w ++ bytes) := by
    intro bytes
    induction bytes with
    | nil =>
      intro w hw
      rw [List.append_nil]
      exact wide w hw
    | cons b bytes ih =>
      intro w hw
      rcases UInt8.lt_or_le b 0x80 with hb | hb
      · exact ascii w b bytes hw hb (ih [] (List.forall_mem_nil _))
      · rw [List.append_cons]
        exact ih (w ++ [b]) (List.forall_mem_append.mpr ⟨hw, List.forall_mem_singleton.mpr hb⟩)
  exact key bytes [] (List.forall_mem_nil _)

namespace ReadsUtf8

variable {decode : List UInt8 → List Char32} (h : ReadsUtf8 decode) {bytes : List UInt8}

include h

theorem cons {b : UInt8} (hb : b < 0x80) (rest : List UInt8) : decode (b :: rest) = b.toNat :: decode rest := by
  have hcons := h.ascii [] rest hb
  rwa [h.nil] at hcons

theorem exists_wide {b : UInt8} (hmem : b ∈ bytes) (hb : 0x80 ≤ b) : ∃ ch ∈ decode bytes, 0x80 ≤ ch := by
  induction bytes using ascii_induction with
  | wide w hw =>
    obtain ⟨hne, hall⟩ := h.wide w (List.ne_nil_of_mem hmem) hw
    obtain ⟨ch, hch⟩ := List.exists_mem_of_ne_nil _ hne
    exact ⟨ch, hch, hall ch hch⟩
  | ascii w a rest hw ha ih =>
    rw [h.ascii w rest ha]
    rcases List.mem_append.mp hmem with hmem | hmem
    · obtain ⟨hne, hall⟩ := h.wide w (List.ne_nil_of_mem hmem) hw
      obtain ⟨ch, hch⟩ := List.exists_mem_of_ne_nil _ hne
      exact ⟨ch, List.mem_append_left _ hch, hall ch hch⟩
    · rcases List.mem_cons.mp hmem with rfl | hmem
      · exact absurd hb (UInt8.not_le.mpr ha)
      · obtain ⟨ch, hch, hwide⟩ := ih hmem
        exact ⟨ch, List.mem_append_right _ (List.mem_cons_of_mem _ hch), hwide⟩

/-- Only nothing gives no characters. -/
theorem eq_nil_iff : decode bytes = [] ↔ bytes = [] := by
  constructor
  · intro hnil
    rcases bytes with _ | ⟨b, rest⟩
    · rfl
    · rcases UInt8.lt_or_le b 0x80 with hb | hb
      · rw [h.cons hb] at hnil
        exact absurd hnil (List.cons_ne_nil _ _)
      · obtain ⟨ch, hch, -⟩ := h.exists_wide List.mem_cons_self hb
        rw [hnil] at hch
        exact absurd hch List.not_mem_nil
  · rintro rfl
    exact h.nil

/-- A text of ASCII is its bytes. -/
theorem eq_map (hall : ∀ ch ∈ decode bytes, ch < 0x80) : decode bytes = bytes.map UInt8.toNat := by
  induction bytes with
  | nil => exact h.nil
  | cons b rest ih =>
    rcases UInt8.lt_or_le b 0x80 with hb | hb
    · rw [h.cons hb] at hall ⊢
      rw [ih fun ch hch => hall ch (List.mem_cons_of_mem _ hch), List.map_cons]
    · obtain ⟨ch, hch, hwide⟩ := h.exists_wide List.mem_cons_self hb
      exact absurd (hall ch hch) (Nat.not_lt.mpr hwide)

end ReadsUtf8

/-! ## Sequences -/

/-- The scanner, with a byte for a character. -/
def readByte (r : Reading) (b : UInt8) : Reading := r.next b.toNat

theorem ne_of_upper {ch k : Nat} (h : 0x60 ≤ ch) (hk : k < 0x60) : ch ≠ k := Nat.ne_of_gt (Nat.lt_of_lt_of_le hk h)

theorem not_le_of_upper {ch k : Nat} (h : 0x60 ≤ ch) (hk : k < 0x60) : ¬ ch ≤ k :=
  Nat.not_le_of_lt (Nat.lt_of_lt_of_le hk h)

theorem isC0OrDel_upper {ch : Nat} (h : 0x60 ≤ ch) (hdel : ch ≠ 0x7F) : isC0OrDel ch = false := by
  simp only [isC0OrDel, Bool.or_eq_false_iff, decide_eq_false_iff_not, beq_eq_false_iff_ne]
  exact ⟨not_le_of_upper h (by decide), hdel⟩

theorem classifyCsiChar_upper {ch : Nat} (h : 0x60 ≤ ch) (hdel : ch ≠ 0x7F) :
    classifyCsiChar ch = .final ∨ classifyCsiChar ch = .invalid := by
  unfold classifyCsiChar
  rw [if_neg (Bool.eq_false_iff.mp (isC0OrDel_upper h hdel)), if_neg fun hr => not_le_of_upper h (by decide) hr.2,
    if_neg (ne_of_upper h (by decide)), if_neg (ne_of_upper h (by decide)),
    if_neg fun hr => not_le_of_upper h (by decide) hr.2]
  exact ite_eq_or_eq _ _ _

/-- Small letters and what is behind them are all the same to the scanner. -/
theorem next_upper (r : Reading) {ch : Nat} (h : 0x60 ≤ ch) (hdel : ch ≠ 0x7F) : r.next ch = r.next 0x80 := by
  have hcontrol := Bool.eq_false_iff.mp (isC0OrDel_upper h hdel)
  have hescape : r.escape ch = r.escape 0x80 := by
    unfold Reading.escape
    rw [if_neg hcontrol, if_neg (ne_of_upper h (by decide)), if_neg (ne_of_upper h (by decide)),
      if_neg (ne_of_upper h (by decide)), if_neg (ne_of_upper h (by decide))]
    rfl
  unfold Reading.next
  split
  · rw [if_neg (ne_of_upper h (by decide)), if_neg (by decide)]
  · exact hescape
  · have hclass : classifyCsiChar 0x80 = .invalid := by decide
    rw [hclass]
    rcases classifyCsiChar_upper h hdel with hch | hch
    · rw [hch]
      rfl
    · rw [hch]
  · rw [if_neg hcontrol, if_neg (by decide)]
  · rw [if_neg (ne_of_upper h (by decide)), if_neg (by decide)]
    exact hescape
  · rfl

theorem next_next_wide (r : Reading) : (r.next 0x80).next 0x80 = r.next 0x80 := by
  obtain ⟨place, waiting⟩ := r
  cases place <;> cases waiting <;> rfl

theorem next_cr_lf (r : Reading) : (r.next 0x0D).next 0x0A = r.next 0x0A := by
  obtain ⟨place, waiting⟩ := r
  cases place <;> cases waiting <;> rfl

theorem foldl_next_wide (r : Reading) {text : List Char32} (hne : text ≠ []) (h : ∀ ch ∈ text, 0x80 ≤ ch) :
    text.foldl Reading.next r = r.next 0x80 := by
  have hwide {ch : Nat} (hch : ch ∈ text) (r : Reading) : r.next ch = r.next 0x80 := by
    have hch : 0x80 ≤ ch := h ch hch
    exact next_upper r (by omega) (by omega)
  obtain ⟨ch, rest, rfl⟩ := List.exists_cons_of_ne_nil hne
  rw [List.foldl_cons, hwide List.mem_cons_self]
  clear hne h
  induction rest with
  | nil => rfl
  | cons c rest ih =>
    rw [List.foldl_cons, hwide (List.mem_cons_of_mem _ List.mem_cons_self), next_next_wide]
    refine ih fun hch => ?_
    rcases List.mem_cons.mp hch with rfl | hch
    · exact hwide List.mem_cons_self
    · exact hwide (List.mem_cons_of_mem _ (List.mem_cons_of_mem _ hch))

theorem foldl_readByte (r : Reading) (bytes : List UInt8) :
    bytes.foldl readByte r = (bytes.map UInt8.toNat).foldl Reading.next r := by
  rw [List.foldl_map]
  rfl

/-- The characters of a stream and its bytes leave the scanner in the same place. -/
theorem foldl_decode {decode : List UInt8 → List Char32} (h : ReadsUtf8 decode) (bytes : List UInt8) :
    ∀ r : Reading, (decode bytes).foldl Reading.next r = bytes.foldl readByte r := by
  have hwide (w : List UInt8) (hw : ∀ b ∈ w, 0x80 ≤ b) (r : Reading) :
      (decode w).foldl Reading.next r = w.foldl readByte r := by
    by_cases hnil : w = []
    · rw [hnil, h.nil]
      rfl
    · obtain ⟨hne, hall⟩ := h.wide w hnil hw
      rw [foldl_next_wide r hne hall, foldl_readByte]
      refine (foldl_next_wide r (by simpa using hnil) fun ch hch => ?_).symm
      obtain ⟨b, hb, rfl⟩ := List.mem_map.mp hch
      exact UInt8.le_iff_toNat_le.mp (hw b hb)
  induction bytes using ascii_induction with
  | wide w hw => exact hwide w hw
  | ascii w b rest hw hb ih =>
    intro r
    rw [h.ascii w rest hb, List.foldl_append, List.foldl_cons, hwide w hw, ih, List.foldl_append, List.foldl_cons]
    rfl

/-! ## Characters that have begun -/

/-- The beginning of a character that a stream stops in. -/
def pendingChar (bytes : List UInt8) : List UInt8 := bytes.drop (bytes.length - utf8IncompleteTailLength bytes)

/-- What is in front of it. -/
def completeChars (bytes : List UInt8) : List UInt8 := bytes.take (bytes.length - utf8IncompleteTailLength bytes)

/-- The stream does not stop inside a character. -/
def BetweenCharacters (bytes : List UInt8) : Prop :=
  ∀ before t lead rest, bytes = before ++ t → ¬ Partial t lead rest

theorem complete_append_pending (bytes : List UInt8) : completeChars bytes ++ pendingChar bytes = bytes :=
  List.take_append_drop ..

theorem loop_cases : ∀ (rev conts : List UInt8) {k : Nat}, conts.length = k → (∀ b ∈ conts, isContinuation b = true) →
    utf8IncompleteTailLoop rev k = 0 ∨ ∃ before t lead rest, rev.reverse ++ conts = before ++ t ∧ Partial t lead rest
  | [], _, _, _, _ => .inl rfl
  | b :: rev, conts, k, hk, hconts => by
    rcases Nat.lt_or_ge k 3 with hlt | hge
    · cases hb : isContinuation b with
      | true =>
        rw [loop_continuation hlt hb, List.reverse_cons, List.append_assoc]
        exact loop_cases rev (b :: conts) (congrArg Nat.succ hk) (List.forall_mem_cons.mpr ⟨hb, hconts⟩)
      | false =>
        rw [loop_lead hlt hb]
        split_ifs with hlength
        · refine .inr ⟨rev.reverse, b :: conts, b, conts, ?_, rfl, hb, hconts, by rwa [hk], by rwa [hk]⟩
          rw [List.reverse_cons, List.append_assoc]
          rfl
        · exact .inl rfl
    · exact .inl (loop_three _ hge)

theorem pendingChar_of_begun (before : List UInt8) {t : List UInt8} {lead : UInt8} {rest : List UInt8}
    (ht : Partial t lead rest) : pendingChar (before ++ t) = t := by
  rw [pendingChar, incompleteTail_partial before ht, List.length_append, Nat.add_sub_cancel, List.drop_left]

/-- A stream stops between two characters or inside one. -/
theorem pendingChar_cases (bytes : List UInt8) : BetweenCharacters bytes ∧ pendingChar bytes = [] ∨
    ∃ lead rest, Partial (pendingChar bytes) lead rest := by
  by_cases hbetween : BetweenCharacters bytes
  · rcases loop_cases bytes.reverse [] rfl (List.forall_mem_nil _) with hzero | ⟨before, t, lead, rest, heq, ht⟩
    · refine .inl ⟨hbetween, ?_⟩
      rw [pendingChar, utf8IncompleteTailLength]
      rw [List.length_nil] at hzero
      rw [hzero, Nat.sub_zero, List.drop_length]
    · rw [List.reverse_reverse, List.append_nil] at heq
      exact absurd ht (hbetween before t lead rest heq)
  · unfold BetweenCharacters at hbetween
    push Not at hbetween
    obtain ⟨before, t, lead, rest, rfl, ht⟩ := hbetween
    exact .inr ⟨lead, rest, (pendingChar_of_begun before ht).symm ▸ ht⟩

theorem betweenCharacters_iff {bytes : List UInt8} : BetweenCharacters bytes ↔ pendingChar bytes = [] := by
  rcases pendingChar_cases bytes with ⟨hbetween, hnil⟩ | ⟨lead, rest, ht⟩
  · exact iff_of_true hbetween hnil
  · refine iff_of_false (fun h => ?_) fun h => ?_
    · exact h _ _ lead rest (complete_append_pending bytes).symm ht
    · rw [h] at ht
      exact absurd ht.eq.symm (List.cons_ne_nil _ _)

theorem partial_prefix {u bytes : List UInt8} {lead : UInt8} {rest : List UInt8} (h : Partial (u ++ bytes) lead rest)
    (hu : u ≠ []) : ∃ rest', Partial u lead rest' := by
  obtain ⟨b, u', rfl⟩ := List.exists_cons_of_ne_nil hu
  obtain ⟨rfl, rfl⟩ := List.cons_eq_cons.mp h.eq
  have hlength := h.length
  have hshort := h.short
  change (u' ++ bytes).length + 1 < _ at hlength
  change (u' ++ bytes).length < 3 at hshort
  rw [List.length_append] at hlength hshort
  exact ⟨u', rfl, h.leads, fun x hx => h.continues x (List.mem_append_left _ hx), by omega, by omega⟩

/-- Of a stream, later bytes need only the character that has begun. -/
theorem pendingChar_append (s bytes : List UInt8) : pendingChar (s ++ bytes) = pendingChar (pendingChar s ++ bytes) := by
  by_cases hbetween : BetweenCharacters (s ++ bytes)
  · have hrest : BetweenCharacters (pendingChar s ++ bytes) := by
      intro before t lead rest heq
      refine hbetween (completeChars s ++ before) t lead rest ?_
      rw [List.append_assoc, ← heq, ← List.append_assoc, complete_append_pending]
    rw [betweenCharacters_iff.mp hbetween, betweenCharacters_iff.mp hrest]
  · unfold BetweenCharacters at hbetween
    push Not at hbetween
    obtain ⟨before, t, lead, rest, heq, ht⟩ := hbetween
    rw [heq, pendingChar_of_begun before ht]
    rcases List.append_eq_append_iff.mp heq with ⟨x, rfl, rfl⟩ | ⟨u, rfl, rfl⟩
    · rw [← List.append_assoc, pendingChar_of_begun _ ht]
    · by_cases hu : u = []
      · subst hu
        exact (pendingChar_of_begun _ ht).symm
      · obtain ⟨rest', hpartial⟩ := partial_prefix ht hu
        rw [pendingChar_of_begun before hpartial]
        exact (pendingChar_of_begun [] ht).symm

theorem completeChars_append (s bytes : List UInt8) :
    completeChars (s ++ bytes) = completeChars s ++ completeChars (pendingChar s ++ bytes) := by
  apply (List.append_left_inj (pendingChar (s ++ bytes))).mp
  rw [complete_append_pending, pendingChar_append, List.append_assoc, complete_append_pending, ← List.append_assoc,
    complete_append_pending]

/-- A byte of ASCII is behind whole characters. -/
theorem betweenCharacters_ascii (s : List UInt8) {b : UInt8} (hb : isContinuation b = false) (hlead : leadLength b = 1) :
    BetweenCharacters (s ++ [b]) := by
  intro before t lead rest heq ht
  rcases List.eq_nil_or_concat rest with rfl | ⟨rest', x, rfl⟩
  · have hlength := ht.length
    rw [ht.eq] at heq
    obtain ⟨-, heq⟩ := List.append_inj' heq rfl
    rw [← List.head_eq_of_cons_eq heq, hlead] at hlength
    exact absurd hlength (by decide)
  · rw [ht.eq, List.concat_eq_append, ← List.cons_append, ← List.append_assoc] at heq
    obtain ⟨-, heq⟩ := List.append_inj' heq rfl
    have hx := ht.continues x (by simp)
    rw [← List.head_eq_of_cons_eq heq, hb] at hx
    exact absurd hx (by decide)

/-! ## The end of a stream -/

/-- Where the scanner is behind the whole characters of a stream, and the character that has begun. -/
structure StreamEnd where
  reading : Reading
  pending : List UInt8
deriving DecidableEq, Repr

def streamEnd (bytes : List UInt8) : StreamEnd := ⟨(completeChars bytes).foldl readByte {}, pendingChar bytes⟩

theorem streamEnd_append (s bytes : List UInt8) : streamEnd (s ++ bytes) =
    ⟨(completeChars ((streamEnd s).pending ++ bytes)).foldl readByte (streamEnd s).reading,
      pendingChar ((streamEnd s).pending ++ bytes)⟩ := by
  rw [streamEnd, completeChars_append, pendingChar_append, List.foldl_append]
  rfl

theorem streamEnd_congr {s s' : List UInt8} (h : streamEnd s = streamEnd s') (bytes : List UInt8) :
    streamEnd (s ++ bytes) = streamEnd (s' ++ bytes) := by
  rw [streamEnd_append, streamEnd_append, h]

theorem streamEnd_of_between {bytes : List UInt8} (h : BetweenCharacters bytes) :
    streamEnd bytes = ⟨bytes.foldl readByte {}, []⟩ := by
  have hnil := betweenCharacters_iff.mp h
  have hall := complete_append_pending bytes
  rw [hnil, List.append_nil] at hall
  rw [streamEnd, hnil, hall]

theorem streamEnd_crlf (s : List UInt8) : streamEnd (s ++ [0x0D, 0x0A]) = streamEnd (s ++ [0x0A]) := by
  have hlf : BetweenCharacters (s ++ [0x0A]) := betweenCharacters_ascii s (by decide) (by decide)
  have hcrlf : BetweenCharacters (s ++ [0x0D] ++ [0x0A]) := betweenCharacters_ascii _ (by decide) (by decide)
  rw [List.append_assoc] at hcrlf
  change BetweenCharacters (s ++ [0x0D, 0x0A]) at hcrlf
  rw [streamEnd_of_between hlf, streamEnd_of_between hcrlf, List.foldl_append, List.foldl_append]
  exact congrArg (StreamEnd.mk · []) (next_cr_lf _)

/-- The carriage returns that are put in front of line feeds do not change where a stream stops. -/
theorem streamEnd_lfToCrlf (last : UInt8) (text s : List UInt8) :
    streamEnd (s ++ (vtAppendStrLfToCrlf last text).1) = streamEnd (s ++ text) := by
  have hout := vtAppendStrLfToCrlf_agrees.output last text trivial
  rw [List.flatMap_singleton'] at hout
  rw [hout]
  clear hout
  induction text generalizing last s with
  | nil => rfl
  | cons b text ih =>
    rw [run_cons, ← List.append_assoc, ih]
    change streamEnd (s ++ (if b = 0x0A ∧ last ≠ 0x0D then [0x0D, 0x0A] else [b]) ++ text) = _
    rw [List.append_cons s b text]
    split_ifs with hlf
    · rw [hlf.1]
      exact streamEnd_congr (streamEnd_crlf s) text
    · rfl

/-! ## Between two sequences -/

/-- The parser is between two messages. -/
def BetweenSequences (decode : List UInt8 → List Char32) (bytes : List UInt8) : Prop :=
  (feed {} (decode bytes)).2.inGround = true

/-- The stream stops outside every control sequence and every character. -/
structure Apart (decode : List UInt8 → List Char32) (bytes : List UInt8) : Prop where
  sequences : BetweenSequences decode bytes
  characters : BetweenCharacters bytes

theorem inGround_iff {p : VtParser} {r : Reading} (h : VtParser.Tracks p r) : p.inGround = true ↔ r.place = .text := by
  rw [h.place, VtParser.inGround, beq_iff_eq]
  cases p.mode <;> decide

theorem betweenSequences_iff {decode : List UInt8 → List Char32} (h : ReadsUtf8 decode) (bytes : List UInt8) :
    BetweenSequences decode bytes ↔ (bytes.foldl readByte {}).place = .text := by
  have htracks := VtParser.tracks_feedChunks [decode bytes]
  rw [List.flatten_singleton, foldl_decode h] at htracks
  exact inGround_iff htracks

theorem apart_iff {decode : List UInt8 → List Char32} (h : ReadsUtf8 decode) (bytes : List UInt8) :
    Apart decode bytes ↔ (streamEnd bytes).reading.place = .text ∧ (streamEnd bytes).pending = [] := by
  constructor
  · rintro ⟨hseq, hchar⟩
    rw [streamEnd_of_between hchar]
    exact ⟨(betweenSequences_iff h bytes).mp hseq, rfl⟩
  · rintro ⟨hplace, hnil⟩
    have hchar := betweenCharacters_iff.mpr hnil
    rw [streamEnd_of_between hchar] at hplace
    exact ⟨(betweenSequences_iff h bytes).mpr hplace, hchar⟩

end Corehost

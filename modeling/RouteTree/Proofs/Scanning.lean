import Mathlib.Data.List.TakeWhile
import Mathlib.Tactic.SplitIfs
import RouteTree.Json.Printer

/-!
# Scanning what was written

A row of pieces is written token after token, with gaps between some of them.  This file shows
that scanning the text gives the tokens back, whatever is written in the gaps, as long as it is
blanks: `scan_flatMap`.

Inside a string every character comes back, as it is written by itself or as an escape
(`foldlM_escaped`).  Words and numbers need more care, since nothing marks their end.  The scanner
completes them only when it sees a character that does not belong to them, and two of them in a
row would be read as one.  `Spaced` says of a row of pieces that this does not happen, and
`Scanner.step_of_finish` that any character behind a word or number that is not part of one is
read as if the word or number had been completed before.
-/

namespace RouteTree.Json

/-- The token that a piece is, if it is no gap. -/
def Piece.token? : Piece → Option Token
  | .token written => some written
  | .line _ | .blank => none

/-- A way to write pieces: tokens by their text, and gaps by blanks. -/
structure IsLayout (render : Piece → List Char) : Prop where
  token : ∀ written, render (.token written) = written.text
  gap : ∀ piece, piece.token? = none → ∀ c ∈ render piece, Token.isBlank c = true

theorem isLayout_compact : IsLayout Piece.compact where
  token written := rfl
  gap piece hgap c hc := by
    cases piece with
    | token written => cases hgap
    | line level => simp [Piece.compact] at hc
    | blank => simp [Piece.compact] at hc

theorem isLayout_indented : IsLayout Piece.indented where
  token written := rfl
  gap piece hgap c hc := by
    cases piece with
    | token written => cases hgap
    | line level =>
        rcases List.mem_cons.mp hc with rfl | hblank
        · rfl
        · rw [List.eq_of_mem_replicate hblank]
          rfl
    | blank =>
        obtain rfl := List.mem_singleton.mp hc
        rfl

namespace Token

/-! ## Numbers -/

/-- A literal that is scanned as one number. -/
structure IsNumber (literal : List Char) : Prop where
  valid : (NumberLiteral.ofText? literal).isSome = true
  head : ∃ c rest, literal = c :: rest ∧ c.isDigit = true
  continues : ∀ c ∈ literal, continuesNumber c = true

theorem exists_cons_toDigits (n : Nat) : ∃ c rest, Nat.toDigits 10 n = c :: rest :=
  List.exists_cons_of_ne_nil Nat.toDigits_ne_nil

theorem head?_toDigits_ne_zero {n : Nat} (hne : n ≠ 0) :
    (Nat.toDigits 10 n).head? ≠ some '0' := by
  induction n using Nat.strongRecOn with
  | ind n ih =>
      by_cases hlt : n < 10
      · rw [Nat.toDigits_of_lt_base hlt]
        simpa using hne
      · have hge : 10 ≤ n := by omega
        have hquotient : n / 10 ≠ 0 := by omega
        obtain ⟨first, rest, hdigits⟩ := exists_cons_toDigits (n / 10)
        have hfirst := ih (n / 10) (by omega) hquotient
        rw [hdigits] at hfirst
        rw [Nat.toDigits_of_base_le (by omega) hge, hdigits]
        exact hfirst

/-- The digits of a natural number are a literal. -/
theorem ofText?_toDigits (n : Nat) :
    (NumberLiteral.ofText? (Nat.toDigits 10 n)).isSome = true := by
  by_cases hzero : n = 0
  · subst hzero
    rfl
  · have hdigit : ∀ c ∈ Nat.toDigits 10 n, c.isDigit = true := by
      intro c hc
      exact Nat.isDigit_of_mem_toDigits (by omega) (by omega) hc
    have hhead := head?_toDigits_ne_zero hzero
    obtain ⟨first, rest, hdigits⟩ := exists_cons_toDigits n
    rw [hdigits] at hdigit hhead ⊢
    have hfirst : first.isDigit = true := hdigit first (List.mem_cons_self ..)
    have hsign : first ≠ '-' := by
      rintro rfl
      cases hfirst
    have hne : first ≠ '0' := by simpa using hhead
    have hall : NumberLiteral.digits? (first :: rest) = some (first :: rest, []) := by
      have htake : (first :: rest).takeWhile Char.isDigit = first :: rest :=
        List.takeWhile_eq_self_iff.mpr hdigit
      have hdrop : (first :: rest).dropWhile Char.isDigit = [] :=
        List.dropWhile_eq_nil_iff.mpr hdigit
      unfold NumberLiteral.digits?
      rw [htake, hdrop]
    have hwhole : NumberLiteral.whole? (first :: rest) = some (first :: rest, []) := by
      unfold NumberLiteral.whole?
      split
      · rename_i heq
        exact absurd (List.cons.inj heq).1 hne
      · exact hall
    unfold NumberLiteral.ofText?
    split
    rename_i hunsigned
    split at hunsigned
    · rename_i heq
      exact absurd (List.cons.inj heq).1 hsign
    · cases hunsigned
      simp [hwhole, NumberLiteral.fraction?, NumberLiteral.exponent?]

theorem isNumber_toString (n : Nat) : IsNumber (toString n).toList := by
  have htext : (toString n).toList = Nat.toDigits 10 n := by
    rw [Nat.toString_eq_ofList_toDigits, String.toList_ofList]
  have hdigit : ∀ c ∈ Nat.toDigits 10 n, c.isDigit = true := by
    intro c hc
    exact Nat.isDigit_of_mem_toDigits (by omega) (by omega) hc
  rw [htext]
  constructor
  · exact ofText?_toDigits n
  · obtain ⟨c, rest, hcons⟩ := exists_cons_toDigits n
    exact ⟨c, rest, hcons, hdigit c (by simp [hcons])⟩
  · intro c hc
    simp [continuesNumber, hdigit c hc]

/-! ## Characters of a string -/

theorem hexDigit?_digitChar (digit : Nat) (h : digit < 16) :
    hexDigit? digit.digitChar = some digit := by
  revert digit
  decide

/-- Inside a string, what stands for a character is read as the character. -/
theorem foldlM_escaped (tokens : List Token) (codes : List Nat) (c : Char) :
    (escaped c).foldlM Scanner.step ⟨tokens, .string codes⟩ =
      some ⟨tokens, .string (c.toNat :: codes)⟩ := by
  unfold escaped
  split_ifs with hquote hslash hbackspace htab hnewline hfeed hreturn hcontrol
  · subst hquote; rfl
  · subst hslash; rfl
  · subst hbackspace; rfl
  · subst htab; rfl
  · subst hnewline; rfl
  · subst hfeed; rfl
  · subst hreturn; rfl
  · have hhigh := hexDigit?_digitChar (c.toNat / 16) (by omega)
    have hlow := hexDigit?_digitChar (c.toNat % 16) (by omega)
    have hzero : hexDigit? '0' = some 0 := rfl
    -- The scanner adds up all four digits of the escape, of which the first two are zero.
    have hvalue : 16 * (16 * (16 * (16 * 0 + 0) + 0) + c.toNat / 16) + c.toNat % 16 = c.toNat :=
      calc
        _ = 16 * (c.toNat / 16) + c.toNat % 16 := by simp
        _ = c.toNat := Nat.div_add_mod c.toNat 16
    simpa [hex4, Scanner.step, hzero, hhigh, hlow] using hvalue
  · simp [Scanner.step, hquote, hslash, hcontrol]

theorem foldlM_flatMap_escaped (tokens : List Token) (codes : List Nat) (text : List Char) :
    (text.flatMap escaped).foldlM Scanner.step ⟨tokens, .string codes⟩ =
      some ⟨tokens, .string ((text.map Char.toNat).reverse ++ codes)⟩ := by
  induction text generalizing codes with
  | nil => rfl
  | cons c rest ih =>
      calc
        ((c :: rest).flatMap escaped).foldlM Scanner.step ⟨tokens, .string codes⟩
        _ = (rest.flatMap escaped).foldlM Scanner.step ⟨tokens, .string (c.toNat :: codes)⟩ := by
            rw [List.flatMap_cons, List.foldlM_append, foldlM_escaped]
            rfl
        _ = some ⟨tokens, .string ((rest.map Char.toNat).reverse ++ c.toNat :: codes)⟩ := ih _
        _ = some ⟨tokens, .string (((c :: rest).map Char.toNat).reverse ++ codes)⟩ := by simp

/-- No character is half of a surrogate pair. -/
theorem ofCodes?_map_toNat (text : List Char) : ofCodes? (text.map Char.toNat) = some text := by
  induction text with
  | nil => rfl
  | cons c rest ih =>
      have hvalid : c.toNat < 0xD800 ∨ 0xDFFF < c.toNat ∧ c.toNat < 0x110000 := c.valid
      have hhigh : isHighHalf c.toNat = false := by
        simp [isHighHalf]
        omega
      have hlow : isLowHalf c.toNat = false := by
        simp [isLowHalf]
        omega
      rw [List.map_cons]
      unfold ofCodes?
      simp [hhigh, hlow, ih, Char.ofNat_toNat]

/-! ## Tokens -/

/-- Whether nothing in the token marks its end. -/
def isLoose : Token → Bool
  | .null | .bool _ | .num _ => true
  | _ => false

/-- A token that is written so that it can be read. -/
def IsWritten : Token → Prop
  | .num literal => IsNumber literal.toList
  | .str text => text ≠ none
  | _ => True

namespace Scanner

/-- What comes behind a word or a number completes it. -/
theorem step_of_finish {scanner : Scanner} {tokens : List Token}
    (h : scanner.finish = some ⟨tokens, .between⟩) {c : Char} (hletter : c.isAlpha = false)
    (hdigit : continuesNumber c = false) :
    scanner.step c = start ⟨tokens, .between⟩ c := by
  unfold step
  cases hmode : scanner.mode with
  | between =>
      have hsame : scanner = ⟨tokens, .between⟩ := by simpa [finish, hmode] using h
      rw [hsame]
  | word letters => simp [hletter, h]
  | number literal => simp [hdigit, h]
  | string codes => simp [finish, hmode] at h
  | escape codes => simp [finish, hmode] at h
  | hex codes value missing => simp [finish, hmode] at h

/-- Blanks complete a word or a number and do nothing else. -/
theorem foldlM_blanks {tokens : List Token} {blanks : List Char}
    (hblank : ∀ c ∈ blanks, isBlank c = true) {scanner : Scanner}
    (h : scanner.finish = some ⟨tokens, .between⟩) :
    ∃ after, blanks.foldlM step scanner = some after ∧
      after.finish = some ⟨tokens, .between⟩ ∧
      (scanner = ⟨tokens, .between⟩ → after = ⟨tokens, .between⟩) := by
  induction blanks generalizing scanner with
  | nil => exact ⟨scanner, rfl, h, id⟩
  | cons c rest ih =>
      obtain ⟨hc, hrest⟩ := List.forall_mem_cons.mp hblank
      have hstart : start ⟨tokens, .between⟩ c = some ⟨tokens, .between⟩ := by
        rw [start, if_pos hc]
      have hother : c.isAlpha = false ∧ continuesNumber c = false := by
        simp only [isBlank, Bool.or_eq_true, decide_eq_true_eq] at hc
        rcases hc with ((rfl | rfl) | rfl) | rfl <;> exact ⟨rfl, rfl⟩
      have hbetween : (⟨tokens, .between⟩ : Scanner).finish = some ⟨tokens, .between⟩ := rfl
      obtain ⟨after, hafter, hfinish, hsame⟩ := ih hrest hbetween
      refine ⟨after, ?_, hfinish, fun _ => hsame rfl⟩
      rw [List.foldlM_cons, step_of_finish h hother.1 hother.2, hstart]
      exact hafter

theorem foldlM_number (tokens : List Token) {read literal : List Char}
    (hliteral : ∀ c ∈ literal, continuesNumber c = true) :
    literal.foldlM step ⟨tokens, .number read⟩ =
      some ⟨tokens, .number (literal.reverse ++ read)⟩ := by
  induction literal generalizing read with
  | nil => rfl
  | cons c rest ih =>
      obtain ⟨hc, hrest⟩ := List.forall_mem_cons.mp hliteral
      have hstep : step ⟨tokens, .number read⟩ c = some ⟨tokens, .number (c :: read)⟩ := by
        simp [step, hc]
      calc
        (c :: rest).foldlM step ⟨tokens, .number read⟩
        _ = rest.foldlM step ⟨tokens, .number (c :: read)⟩ := by
            rw [List.foldlM_cons, hstep]
            rfl
        _ = some ⟨tokens, .number (rest.reverse ++ c :: read)⟩ := ih hrest
        _ = some ⟨tokens, .number ((c :: rest).reverse ++ read)⟩ := by simp

/-- A word or a number, read between tokens, is completed by what comes behind. -/
theorem foldlM_loose (tokens : List Token) {written : Token} (hloose : written.isLoose = true)
    (hwritten : written.IsWritten) :
    ∃ after, written.text.foldlM step ⟨tokens, .between⟩ = some after ∧
      after.finish = some ⟨written :: tokens, .between⟩ := by
  cases written with
  | null => exact ⟨⟨tokens, .word ['l', 'l', 'u', 'n']⟩, rfl, rfl⟩
  | bool value =>
      cases value with
      | true => exact ⟨⟨tokens, .word ['e', 'u', 'r', 't']⟩, rfl, rfl⟩
      | false => exact ⟨⟨tokens, .word ['e', 's', 'l', 'a', 'f']⟩, rfl, rfl⟩
  | num literal =>
      obtain ⟨hvalid, ⟨c, rest, hliteral, hc⟩, hcontinues⟩ := hwritten
      have hblank : isBlank c = false := by
        rw [Bool.eq_false_iff]
        intro hblank
        simp only [isBlank, Bool.or_eq_true, decide_eq_true_eq] at hblank
        rcases hblank with ((rfl | rfl) | rfl) | rfl <;> cases hc
      have hquote : c ≠ '"' := by
        rintro rfl
        cases hc
      have hfirst : step ⟨tokens, .between⟩ c = some ⟨tokens, .number [c]⟩ := by
        simp [step, start, hblank, hquote, hc]
      have hrest : ∀ c ∈ rest, continuesNumber c = true := by
        intro c hmem
        exact hcontinues c (by simp [hliteral, hmem])
      refine ⟨⟨tokens, .number literal.toList.reverse⟩, ?_, ?_⟩
      · rw [text, hliteral, List.foldlM_cons, hfirst, Option.bind_eq_bind, Option.bind_some,
          foldlM_number tokens hrest, List.reverse_cons]
      · obtain ⟨value, hvalue⟩ := Option.isSome_iff_exists.mp hvalid
        simp [finish, ofNumber?, hvalue, emit]
  | _ => cases hloose

/-- Any other token completes what stands before it, and is complete by itself. -/
theorem foldlM_firm {tokens : List Token} {written : Token} (hfirm : written.isLoose = false)
    (hwritten : written.IsWritten) {scanner : Scanner}
    (h : scanner.finish = some ⟨tokens, .between⟩) :
    written.text.foldlM step scanner = some ⟨written :: tokens, .between⟩ := by
  have hmark : ∀ c, c.isAlpha = false → continuesNumber c = false →
      start ⟨tokens, .between⟩ c = some ⟨written :: tokens, .between⟩ →
      [c].foldlM step scanner = some ⟨written :: tokens, .between⟩ := by
    intro c hletter hdigit hstart
    rw [List.foldlM_cons, step_of_finish h hletter hdigit, hstart]
    rfl
  cases written with
  | openObject => exact hmark '{' rfl rfl rfl
  | closeObject => exact hmark '}' rfl rfl rfl
  | openArray => exact hmark '[' rfl rfl rfl
  | closeArray => exact hmark ']' rfl rfl rfl
  | colon => exact hmark ':' rfl rfl rfl
  | comma => exact hmark ',' rfl rfl rfl
  | str content =>
      obtain ⟨text, rfl⟩ := Option.ne_none_iff_exists'.mp hwritten
      have hopen : step scanner '"' = some ⟨tokens, .string []⟩ := by
        rw [step_of_finish h rfl rfl]
        rfl
      rw [Token.text, quoted, List.cons_append, List.foldlM_cons, hopen, Option.bind_eq_bind,
        Option.bind_some, List.foldlM_append, foldlM_flatMap_escaped, Option.bind_eq_bind,
        Option.bind_some, List.append_nil]
      simp [step, emit, ofCodes?_map_toNat]
  | null => cases hfirm
  | bool value => cases hfirm
  | num literal => cases hfirm

end Scanner

/-! ## Rows of pieces -/

/-- Behind every word and every number of the row there is a token that completes it before the
next word or number.  `pending` says that one stands in front of the row. -/
def Spaced (pending : Bool) : List Piece → Prop
  | [] => True
  | piece :: rest =>
    match piece.token? with
    | none => Spaced pending rest
    | some written => (written.isLoose = true → pending = false) ∧ Spaced written.isLoose rest

/-- Where a word may stand in front, it need not. -/
theorem Spaced.mono {pieces : List Piece} (h : Spaced true pieces) : Spaced false pieces := by
  induction pieces with
  | nil => trivial
  | cons piece rest ih =>
      unfold Spaced at h ⊢
      split
      · rename_i hgap
        rw [hgap] at h
        exact ih h
      · rename_i written htoken
        rw [htoken] at h
        exact ⟨fun _ => rfl, h.2⟩

/-- Every token of the row can be read. -/
def AllWritten (pieces : List Piece) : Prop :=
  ∀ piece ∈ pieces, ∀ written, piece.token? = some written → written.IsWritten

theorem exists_scanner_of_spaced {render : Piece → List Char} (hlayout : IsLayout render)
    {pieces : List Piece} {pending : Bool} (hspaced : Spaced pending pieces)
    (hwritten : AllWritten pieces) {tokens : List Token} {scanner : Scanner}
    (hfinish : scanner.finish = some ⟨tokens, .between⟩)
    (hready : pending = false → scanner = ⟨tokens, .between⟩) :
    ∃ after, (pieces.flatMap render).foldlM Scanner.step scanner = some after ∧
      after.finish = some ⟨(pieces.filterMap Piece.token?).reverse ++ tokens, .between⟩ := by
  induction pieces generalizing pending tokens scanner with
  | nil => exact ⟨scanner, rfl, hfinish⟩
  | cons piece rest ih =>
      obtain ⟨hpiece, hrest⟩ := List.forall_mem_cons.mp hwritten
      rw [List.flatMap_cons, List.foldlM_append]
      unfold Spaced at hspaced
      cases htoken : piece.token? with
      | none =>
          simp only [htoken] at hspaced
          obtain ⟨middle, hmiddle, hgap, hsame⟩ :=
            Scanner.foldlM_blanks (hlayout.gap piece htoken) hfinish
          rw [hmiddle, List.filterMap_cons_none htoken]
          exact ih hspaced hrest hgap fun hpending => hsame (hready hpending)
      | some written =>
          simp only [htoken] at hspaced
          obtain ⟨hloose, hnext⟩ := hspaced
          obtain rfl : piece = .token written := by
            cases piece with
            | token other => rw [Option.some.inj htoken]
            | line level => cases htoken
            | blank => cases htoken
          have hreadable : written.IsWritten := hpiece written htoken
          rw [hlayout.token, List.filterMap_cons_some htoken, List.reverse_cons,
            List.append_assoc, List.singleton_append]
          -- A firm token completes whatever is pending; a loose one finds nothing pending.
          cases hkind : written.isLoose with
          | true =>
              rw [hready (hloose hkind)]
              obtain ⟨middle, hmiddle, hbehind⟩ := Scanner.foldlM_loose tokens hkind hreadable
              rw [hmiddle]
              rw [hkind] at hnext
              exact ih hnext hrest hbehind fun hpending => by cases hpending
          | false =>
              rw [Scanner.foldlM_firm hkind hreadable hfinish]
              exact ih hnext hrest rfl fun _ => rfl

/-- **Scanning gives the tokens back**, whatever stands in the gaps between them. -/
theorem scan_flatMap {render : Piece → List Char} (hlayout : IsLayout render)
    {pieces : List Piece} (hspaced : Spaced false pieces) (hwritten : AllWritten pieces) :
    scan (pieces.flatMap render) = some (pieces.filterMap Piece.token?) := by
  have hstart : ({} : Scanner).finish = some ⟨[], .between⟩ := rfl
  obtain ⟨after, hafter, hfinish⟩ :=
    exists_scanner_of_spaced hlayout hspaced hwritten hstart fun _ => rfl
  simp [scan, hafter, hfinish]

end Token
end RouteTree.Json

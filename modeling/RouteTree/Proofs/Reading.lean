import RouteTree.Json.Reader
import RouteTree.Proofs.Scanning

/-!
# Reading what was written

A JSON value is written as a row of pieces, in one of two layouts, and a text is read in two steps,
by its tokens and by what these open and close.  Both layouts have the same pieces and differ in
the gaps only, so they are read as the same value, which is the value that was written:
`parse?_compact` and `parse?_indented`.

The reader holds what is open as a stack.  From the start of a value it comes to its end with the
stack as it was (`foldlM_pieces`); the items of an array and the members of an object are read
onto the innermost frame, and the closing bracket makes the value of it.

Not every value can be written so that it is read again: half a surrogate pair has no text, and
the literal of a number may be any string.  `IsWritten` leaves these out.
-/

namespace RouteTree.Json

/-- A value that holds nothing but what has a written form. -/
inductive IsWritten : Json → Prop
  | null : IsWritten .null
  | bool (value : Bool) : IsWritten (.bool value)
  | num {literal : String} (h : Token.IsNumber literal.toList) : IsWritten (.num literal)
  | str (text : String) : IsWritten (.str text)
  | arr {items : List Json} (h : ∀ item ∈ items, IsWritten item) : IsWritten (.arr items)
  | obj {members : List (String × Json)} (h : ∀ member ∈ members, IsWritten member.2) :
      IsWritten (.obj members)

theorem isWritten_nat (n : Nat) : IsWritten (.nat n) :=
  .num (Token.isNumber_toString n)

/-! ## The pieces of a value -/

open Token (Spaced AllWritten)

mutual

/-- A value may stand in front of everything in front of which a word may stand. -/
theorem spaced_pieces (value : Json) (level : Nat) {rest : List Piece} (h : Spaced true rest) :
    Spaced false (value.pieces level ++ rest) := by
  cases value with
  | null => exact ⟨fun _ => rfl, h⟩
  | bool value => exact ⟨fun _ => rfl, h⟩
  | num literal => exact ⟨fun _ => rfl, h⟩
  | str text => exact ⟨fun _ => rfl, h.mono⟩
  | undefined => exact ⟨fun _ => rfl, h.mono⟩
  | arr items =>
      cases items with
      | nil => exact ⟨fun _ => rfl, fun _ => rfl, h.mono⟩
      | cons item others =>
          have hclose : Spaced true (.line level :: .token .closeArray :: rest) :=
            ⟨nofun, h.mono⟩
          have hitems := spaced_piecesOfItems others (level + 1) hclose
          have hitem := spaced_pieces item (level + 1) hitems
          simpa [pieces, Spaced, Piece.token?, Token.isLoose] using hitem
  | obj members =>
      cases members with
      | nil => exact ⟨fun _ => rfl, fun _ => rfl, h.mono⟩
      | cons member others =>
          obtain ⟨key, value⟩ := member
          have hclose : Spaced true (.line level :: .token .closeObject :: rest) :=
            ⟨nofun, h.mono⟩
          have hmembers := spaced_piecesOfMembers others (level + 1) hclose
          have hvalue := spaced_pieces value (level + 1) hmembers
          simpa [pieces, Spaced, Piece.token?, Token.isLoose] using hvalue
termination_by structural value

theorem spaced_piecesOfItems (items : List Json) (level : Nat) {rest : List Piece}
    (h : Spaced true rest) : Spaced true (piecesOfItems level items ++ rest) := by
  cases items with
  | nil => exact h
  | cons item others =>
      have hitems := spaced_piecesOfItems others level h
      have hitem := spaced_pieces item level hitems
      simpa [piecesOfItems, Spaced, Piece.token?, Token.isLoose] using hitem
termination_by structural items

theorem spaced_piecesOfMembers (members : List (String × Json)) (level : Nat)
    {rest : List Piece} (h : Spaced true rest) :
    Spaced true (piecesOfMembers level members ++ rest) := by
  cases members with
  | nil => exact h
  | cons member others =>
      obtain ⟨key, value⟩ := member
      have hmembers := spaced_piecesOfMembers others level h
      have hvalue := spaced_pieces value level hmembers
      simpa [piecesOfMembers, Spaced, Piece.token?, Token.isLoose] using hvalue
termination_by structural members

end

theorem allWritten_append {first second : List Piece} :
    AllWritten (first ++ second) ↔ AllWritten first ∧ AllWritten second :=
  List.forall_mem_append

theorem allWritten_cons {piece : Piece} {rest : List Piece} :
    AllWritten (piece :: rest) ↔
      (∀ written, piece.token? = some written → written.IsWritten) ∧ AllWritten rest :=
  List.forall_mem_cons

@[simp] theorem allWritten_nil : AllWritten [] := nofun

mutual

theorem allWritten_pieces (value : Json) (level : Nat) (h : value.IsWritten) :
    AllWritten (value.pieces level) := by
  cases h with
  | arr hitems =>
      rename_i items
      cases items with
      | nil => simp [pieces, allWritten_cons, Piece.token?, Token.IsWritten]
      | cons item others =>
          obtain ⟨hitem, hothers⟩ := List.forall_mem_cons.mp hitems
          have hfirst := allWritten_pieces item (level + 1) hitem
          have hrest := allWritten_piecesOfItems others (level + 1) hothers
          simp [pieces, allWritten_cons, allWritten_append, Piece.token?, Token.IsWritten, hfirst,
            hrest]
  | obj hmembers =>
      rename_i members
      cases members with
      | nil => simp [pieces, allWritten_cons, Piece.token?, Token.IsWritten]
      | cons member others =>
          obtain ⟨key, value⟩ := member
          obtain ⟨hvalue, hothers⟩ := List.forall_mem_cons.mp hmembers
          have hfirst := allWritten_pieces value (level + 1) hvalue
          have hrest := allWritten_piecesOfMembers others (level + 1) hothers
          simp [pieces, allWritten_cons, allWritten_append, Piece.token?, Token.IsWritten, hfirst,
            hrest]
  | num hnumber => simpa [pieces, allWritten_cons, Piece.token?, Token.IsWritten] using hnumber
  | _ => simp [pieces, allWritten_cons, Piece.token?, Token.IsWritten]
termination_by structural value

theorem allWritten_piecesOfItems (items : List Json) (level : Nat)
    (h : ∀ item ∈ items, IsWritten item) : AllWritten (piecesOfItems level items) := by
  cases items with
  | nil => simp [piecesOfItems]
  | cons item others =>
      obtain ⟨hitem, hothers⟩ := List.forall_mem_cons.mp h
      have hfirst := allWritten_pieces item level hitem
      have hrest := allWritten_piecesOfItems others level hothers
      simp [piecesOfItems, allWritten_cons, allWritten_append, Piece.token?, Token.IsWritten,
        hfirst, hrest]
termination_by structural items

theorem allWritten_piecesOfMembers (members : List (String × Json)) (level : Nat)
    (h : ∀ member ∈ members, IsWritten member.2) :
    AllWritten (piecesOfMembers level members) := by
  cases members with
  | nil => simp [piecesOfMembers]
  | cons member others =>
      obtain ⟨key, value⟩ := member
      obtain ⟨hvalue, hothers⟩ := List.forall_mem_cons.mp h
      have hfirst := allWritten_pieces value level hvalue
      have hrest := allWritten_piecesOfMembers others level hothers
      simp [piecesOfMembers, allWritten_cons, allWritten_append, Piece.token?, Token.IsWritten,
        hfirst, hrest]
termination_by structural members

end

/-! ## What the reader makes of the tokens -/

/-- The tokens of a row of pieces. -/
def tokensOf (pieces : List Piece) : List Token :=
  pieces.filterMap Piece.token?

@[simp] theorem tokensOf_nil : tokensOf [] = [] := rfl

@[simp] theorem tokensOf_token (written : Token) (rest : List Piece) :
    tokensOf (.token written :: rest) = written :: tokensOf rest := rfl

@[simp] theorem tokensOf_line (level : Nat) (rest : List Piece) :
    tokensOf (.line level :: rest) = tokensOf rest := rfl

@[simp] theorem tokensOf_blank (rest : List Piece) :
    tokensOf (.blank :: rest) = tokensOf rest := rfl

@[simp] theorem tokensOf_append (first second : List Piece) :
    tokensOf (first ++ second) = tokensOf first ++ tokensOf second :=
  List.filterMap_append

/-- No value starts with the end of an array, so the first item of an array is read like any
value. -/
theorem step_atFirstItem {opened : List Frame} {written : Token} (h : written ≠ .closeArray) :
    Reader.step (.atFirstItem opened) written =
      Reader.step (.atValue (.items [] :: opened)) written := by
  cases written <;> first | rfl | exact absurd rfl h

theorem exists_first_token (value : Json) (level : Nat) :
    ∃ first rest, tokensOf (value.pieces level) = first :: rest ∧ first ≠ .closeArray := by
  cases value with
  | arr items => cases items <;> exact ⟨_, _, rfl, nofun⟩
  | obj members =>
      cases members with
      | nil => exact ⟨_, _, rfl, nofun⟩
      | cons member others => exact ⟨_, _, rfl, nofun⟩
  | _ => exact ⟨_, _, rfl, nofun⟩

theorem foldlM_atFirstItem (value : Json) (level : Nat) (opened : List Frame)
    (rest : List Token) :
    (tokensOf (value.pieces level) ++ rest).foldlM Reader.step (.atFirstItem opened) =
      (tokensOf (value.pieces level) ++ rest).foldlM Reader.step
        (.atValue (.items [] :: opened)) := by
  obtain ⟨first, others, htokens, hfirst⟩ := exists_first_token value level
  rw [htokens, List.cons_append, List.foldlM_cons, List.foldlM_cons, step_atFirstItem hfirst]

/-- The members of an object as the reader holds them. -/
def readMembers (members : List (String × Json)) : List (Option String × Json) :=
  members.map fun member => (some member.1, member.2)

theorem objectOf_readMembers (members : List (String × Json)) :
    Reader.objectOf (readMembers members) = .obj members := by
  have hkeys : (readMembers members).mapM (fun member => member.1.map (·, member.2)) =
      some members := by
    induction members with
    | nil => rfl
    | cons member rest ih =>
        rw [readMembers, List.map_cons, List.mapM_cons, ← readMembers, ih]
        rfl
  unfold Reader.objectOf
  simp only [hkeys]

mutual

/-- The reader comes to the end of a value, with what was open as before. -/
theorem foldlM_pieces (value : Json) (level : Nat) (h : value.IsWritten) (opened : List Frame)
    (rest : List Token) :
    (tokensOf (value.pieces level) ++ rest).foldlM Reader.step (.atValue opened) =
      rest.foldlM Reader.step (.behind value opened) := by
  cases h with
  | arr hitems =>
      rename_i items
      cases items with
      | nil => rfl
      | cons item others =>
          obtain ⟨hitem, hothers⟩ := List.forall_mem_cons.mp hitems
          -- What stands behind the first item: the other items, and the end of the array.
          let behind := tokensOf (piecesOfItems (level + 1) others) ++ .closeArray :: rest
          calc
            (tokensOf ((arr (item :: others)).pieces level) ++ rest).foldlM Reader.step
              (.atValue opened)
            _ = (tokensOf (item.pieces (level + 1)) ++ behind).foldlM Reader.step
                  (.atFirstItem opened) := by
                simp [behind, pieces, Reader.step, Reader.startValue]
            _ = (tokensOf (item.pieces (level + 1)) ++ behind).foldlM Reader.step
                  (.atValue (.items [] :: opened)) :=
                foldlM_atFirstItem item (level + 1) opened behind
            _ = behind.foldlM Reader.step (.behind item (.items [] :: opened)) :=
                foldlM_pieces item (level + 1) hitem (.items [] :: opened) behind
            _ = rest.foldlM Reader.step (.behind (.arr (item :: others)) opened) :=
                foldlM_piecesOfItems others (level + 1) hothers item [] opened rest
  | obj hmembers =>
      rename_i members
      cases members with
      | nil => rfl
      | cons member others =>
          obtain ⟨key, value⟩ := member
          obtain ⟨hvalue, hothers⟩ := List.forall_mem_cons.mp hmembers
          let behind := tokensOf (piecesOfMembers (level + 1) others) ++ .closeObject :: rest
          calc
            (tokensOf ((obj ((key, value) :: others)).pieces level) ++ rest).foldlM Reader.step
              (.atValue opened)
            _ = (tokensOf (value.pieces (level + 1)) ++ behind).foldlM Reader.step
                  (.atValue (.members [] (some key) :: opened)) := by
                simp [behind, pieces, Reader.step, Reader.startValue]
            _ = behind.foldlM Reader.step (.behind value (.members [] (some key) :: opened)) :=
                foldlM_pieces value (level + 1) hvalue (.members [] (some key) :: opened) behind
            _ = rest.foldlM Reader.step (.behind (.obj ((key, value) :: others)) opened) :=
                foldlM_piecesOfMembers others (level + 1) hothers key value [] opened rest
  | _ => rfl
termination_by structural value

/-- Behind an item of an array, the other items and the closing bracket complete the array. -/
theorem foldlM_piecesOfItems (items : List Json) (level : Nat)
    (h : ∀ item ∈ items, IsWritten item) (value : Json) (read : List Json) (opened : List Frame)
    (rest : List Token) :
    (tokensOf (piecesOfItems level items) ++ .closeArray :: rest).foldlM Reader.step
        (.behind value (.items read.reverse :: opened)) =
      rest.foldlM Reader.step (.behind (.arr (read ++ value :: items)) opened) := by
  cases items with
  | nil => simp [piecesOfItems, Reader.step]
  | cons item others =>
      obtain ⟨hitem, hothers⟩ := List.forall_mem_cons.mp h
      have hrest := foldlM_piecesOfItems others level hothers item (read ++ [value]) opened rest
      have hfirst := foldlM_pieces item level hitem (.items (read ++ [value]).reverse :: opened)
        (tokensOf (piecesOfItems level others) ++ .closeArray :: rest)
      rw [hrest] at hfirst
      simpa [piecesOfItems, Reader.step] using hfirst
termination_by structural items

/-- Behind a member of an object, the other members and the closing bracket complete the
object. -/
theorem foldlM_piecesOfMembers (members : List (String × Json)) (level : Nat)
    (h : ∀ member ∈ members, IsWritten member.2) (key : String) (value : Json)
    (read : List (String × Json)) (opened : List Frame) (rest : List Token) :
    (tokensOf (piecesOfMembers level members) ++ .closeObject :: rest).foldlM Reader.step
        (.behind value (.members (readMembers read).reverse (some key) :: opened)) =
      rest.foldlM Reader.step (.behind (.obj (read ++ (key, value) :: members)) opened) := by
  cases members with
  | nil =>
      have hobject := objectOf_readMembers (read ++ [(key, value)])
      simp only [readMembers, List.map_append, List.map_cons, List.map_nil] at hobject
      simp [piecesOfMembers, Reader.step, readMembers, hobject]
  | cons member others =>
      obtain ⟨next, held⟩ := member
      obtain ⟨hvalue, hothers⟩ := List.forall_mem_cons.mp h
      have hrest :=
        foldlM_piecesOfMembers others level hothers next held (read ++ [(key, value)]) opened rest
      have hfirst := foldlM_pieces held level hvalue
        (.members (readMembers (read ++ [(key, value)])).reverse (some next) :: opened)
        (tokensOf (piecesOfMembers level others) ++ .closeObject :: rest)
      rw [hrest] at hfirst
      simpa [piecesOfMembers, Reader.step, readMembers] using hfirst
termination_by structural members

end

theorem ofTokens?_pieces {value : Json} (h : value.IsWritten) :
    ofTokens? (tokensOf (value.pieces 0)) = some value := by
  have hread := foldlM_pieces value 0 h [] []
  rw [List.append_nil] at hread
  unfold ofTokens?
  rw [hread]
  rfl

/-! ## Texts -/

theorem scan_pieces {render : Piece → List Char} (hlayout : IsLayout render) {value : Json}
    (h : value.IsWritten) :
    Token.scan ((value.pieces 0).flatMap render) = some (tokensOf (value.pieces 0)) := by
  apply Token.scan_flatMap hlayout
  · have hend : Spaced true [] := trivial
    have hspaced := spaced_pieces value 0 hend
    rwa [List.append_nil] at hspaced
  · exact allWritten_pieces value 0 h

/-- The compact text of a value is read as the value. -/
theorem parse?_compact {value : Json} (h : value.IsWritten) :
    parse? value.compact = some value := by
  unfold parse? compact
  rw [String.toList_ofList, scan_pieces isLayout_compact h, Option.bind_some, ofTokens?_pieces h]

/-- So is the indented one. -/
theorem parse?_indented {value : Json} (h : value.IsWritten) :
    parse? value.indented = some value := by
  unfold parse? indented
  rw [String.toList_ofList, scan_pieces isLayout_indented h, Option.bind_some, ofTokens?_pieces h]

end RouteTree.Json

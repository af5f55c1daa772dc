/-!
# Lists of named values

A list of pairs holds one value for each name, in the order in which the names came
up.  `assign` keeps it that way: a new name goes to the end, and a name that is there
keeps its position.

`lookup_assign` says what a name stands for after an assignment, and `map_fst_assign`
which names there are.
-/

namespace RouteTree

/-- Gives a name a value: in its present position if it is there, at the end if it is
new. -/
def assign {α : Type} (name : String) (value : α) : List (String × α) → List (String × α)
  | [] => [(name, value)]
  | (other, old) :: rest =>
    if other = name then (other, value) :: rest else (other, old) :: assign name value rest

/-- The first pair of a name says what the name stands for. -/
theorem lookup_cons_pair {α : Type} (name other : String) (value : α)
    (rest : List (String × α)) :
    ((name, value) :: rest).lookup other =
      if other = name then some value else rest.lookup other := by
  rw [List.lookup_cons]
  by_cases h : other = name
  · simp [h]
  · have hbeq : (other == name) = false := by simpa using h
    simp [hbeq, h]

/-- The name stands for the value, and every other name for what it stood for. -/
theorem lookup_assign {α : Type} (name other : String) (value : α) (list : List (String × α)) :
    (assign name value list).lookup other =
      if other = name then some value else list.lookup other := by
  induction list with
  | nil => rw [assign, lookup_cons_pair]
  | cons first rest ih =>
    obtain ⟨known, old⟩ := first
    by_cases hknown : known = name
    · rw [assign, if_pos hknown, lookup_cons_pair, lookup_cons_pair, hknown]
      by_cases h : other = name <;> simp [h]
    · rw [assign, if_neg hknown, lookup_cons_pair, lookup_cons_pair, ih]
      by_cases h : other = known
      · have : other ≠ name := by rw [h]; exact hknown
        simp [h, hknown]
      · simp [h]

/-- A new name goes to the end and no name moves. -/
theorem map_fst_assign {α : Type} (name : String) (value : α) (list : List (String × α)) :
    (assign name value list).map (·.1) =
      if name ∈ list.map (·.1) then list.map (·.1) else list.map (·.1) ++ [name] := by
  induction list with
  | nil => simp [assign]
  | cons first rest ih =>
    obtain ⟨known, old⟩ := first
    by_cases hknown : known = name
    · simp [assign, hknown]
    · have hsymm : name ≠ known := fun h => hknown h.symm
      by_cases hmem : name ∈ rest.map (·.1)
      · simp only [assign, hknown, if_false, List.map_cons, ih, hmem, if_true]
        simp [hmem]
      · simp only [assign, hknown, if_false, List.map_cons, ih, hmem]
        simp [hmem, hsymm]

/-- Where no name is given twice, every pair says what its name stands for. -/
theorem lookup_of_mem {α : Type} {name : String} {value : α} {list : List (String × α)}
    (hdistinct : (list.map (·.1)).Nodup) (hmem : (name, value) ∈ list) :
    list.lookup name = some value := by
  induction list with
  | nil => simp at hmem
  | cons first rest ih =>
    obtain ⟨known, old⟩ := first
    obtain ⟨hknown, hrest⟩ := List.nodup_cons.mp hdistinct
    rw [lookup_cons_pair]
    rcases List.mem_cons.mp hmem with heq | hlater
    · cases heq
      exact if_pos rfl
    · have hne : name ≠ known := by
        rintro rfl
        exact hknown (List.mem_map.mpr ⟨_, hlater, rfl⟩)
      rw [if_neg hne]
      exact ih hrest hlater

/-- Lists with the same names in the same order are equal if every name stands for the same
in both. -/
theorem eq_of_lookup_eq {α : Type} {list other : List (String × α)}
    (hnames : list.map (·.1) = other.map (·.1)) (hdistinct : (list.map (·.1)).Nodup)
    (hlookup : ∀ name, list.lookup name = other.lookup name) : list = other := by
  have hdistinct' : (other.map (·.1)).Nodup := hnames ▸ hdistinct
  have hlength : list.length = other.length := by simpa using congrArg List.length hnames
  refine List.ext_getElem hlength fun n hn hn' => ?_
  have hname : list[n].1 = other[n].1 := by
    have hat : (list.map (·.1))[n]? = (other.map (·.1))[n]? := by rw [hnames]
    simpa [hn, hn'] using hat
  have hvalue : some list[n].2 = some other[n].2 :=
    calc
      some list[n].2 = list.lookup list[n].1 :=
        (lookup_of_mem hdistinct (List.getElem_mem hn)).symm
      _ = other.lookup other[n].1 := by rw [hlookup, hname]
      _ = some other[n].2 := lookup_of_mem hdistinct' (List.getElem_mem hn')
  exact Prod.ext hname (Option.some.inj hvalue)

end RouteTree

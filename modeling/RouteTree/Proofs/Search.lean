import RouteTree.Proofs.Matching

/-!
# Searching a table

`Table.search?` looks for the declaration that answers a request the way a decision
tree does: one component at a time, the literal first, then the parameter, then the
catch-all, each of them only where the one before has led nowhere.

It is a search with local decisions and backtracking.  `search?_isBest` and
`not_candidate_of_search?` show that it finds exactly the best of all candidates, so the
answer does not depend on the order of the search.
-/

namespace RouteTree.Table

/-- The address of a place at the root, if something is declared there. -/
def here? (table : Table) (place : Place) : Option Address :=
  if (table ⟨[], place⟩).isSome then some ⟨[], place⟩ else none

/-- The address at which the search for a request ends. -/
def search? : List String → Table → Option Address
  | [], table => (table.here? .override).or (table.here? .exact)
  | component :: rest, table =>
    (table.here? .override).or
      (if component = "" then none
      else
        ((search? rest (table.below (.literal component))).map
            (Address.after (.literal component))).or
          (((search? rest (table.below .dynamic)).map (Address.after .dynamic)).or
            (table.here? .catchAll)))

theorem here?_eq_some_iff {table : Table} {place : Place} {address : Address} :
    table.here? place = some address ↔
      address = ⟨[], place⟩ ∧ table ⟨[], place⟩ ≠ none := by
  cases hheld : table ⟨[], place⟩ <;> simp [here?, hheld, eq_comm]

theorem here?_eq_none_iff {table : Table} {place : Place} :
    table.here? place = none ↔ table ⟨[], place⟩ = none := by
  cases hheld : table ⟨[], place⟩ <;> simp [here?, hheld]

theorem search?_of_override {table : Table} (hroot : table ⟨[], .override⟩ ≠ none)
    (request : List String) : search? request table = some ⟨[], .override⟩ := by
  have hhere : table.here? .override = some ⟨[], .override⟩ :=
    here?_eq_some_iff.mpr ⟨rfl, hroot⟩
  cases request <;> simp [search?, hhere]

theorem search?_nil {table : Table} (hroot : table ⟨[], .override⟩ = none) :
    search? [] table = table.here? .exact := by
  simp [search?, here?_eq_none_iff.mpr hroot]

theorem search?_cons {table : Table} (hroot : table ⟨[], .override⟩ = none)
    {component : String} (hne : component ≠ "") (rest : List String) :
    search? (component :: rest) table =
      ((search? rest (table.below (.literal component))).map
          (Address.after (.literal component))).or
        (((search? rest (table.below .dynamic)).map (Address.after .dynamic)).or
          (table.here? .catchAll)) := by
  simp [search?, here?_eq_none_iff.mpr hroot, hne]

theorem search?_empty_cons {table : Table} (hroot : table ⟨[], .override⟩ = none)
    (rest : List String) : search? ("" :: rest) table = none := by
  simp [search?, here?_eq_none_iff.mpr hroot]

@[simp] theorem search?_empty (request : List String) :
    search? request (fun _ => none) = none := by
  induction request with
  | nil => rfl
  | cons component rest ih =>
      have hbelow : ∀ step, Table.below (fun _ => none) step = fun _ => none := fun _ => rfl
      simp [search?, here?, hbelow, ih]

/-! ## The search finds the best candidate -/

/-- Where the search leads nowhere there is no candidate. -/
theorem not_candidate_of_search? {table : Table} {request : List String}
    (h : search? request table = none) (address : Address) :
    ¬ table.Candidate request address := by
  induction request generalizing table address with
  | nil =>
      by_cases hroot : table ⟨[], .override⟩ = none
      · rw [search?_nil hroot, here?_eq_none_iff] at h
        rw [candidate_nil_iff hroot]
        exact fun hexact => hexact.2 h
      · simp [search?_of_override hroot] at h
  | cons component rest ih =>
      by_cases hroot : table ⟨[], .override⟩ = none
      · rw [candidate_cons_iff hroot]
        rintro ⟨hne, hcandidate⟩
        simp only [search?_cons hroot hne, Option.or_eq_none_iff, Option.map_eq_none_iff,
          here?_eq_none_iff] at h
        obtain ⟨hliteral, hdynamic, hcatchAll⟩ := h
        rcases hcandidate with ⟨_, hheld⟩ | ⟨step, below, _, rfl | rfl, hbelow⟩
        · exact hheld hcatchAll
        · exact ih hdynamic below hbelow
        · exact ih hliteral below hbelow
      · simp [search?_of_override hroot] at h

theorem isBest_of_forall_eq {table : Table} {request : List String} {address : Address}
    (hcandidate : table.Candidate request address)
    (hall : ∀ other, table.Candidate request other → other = address) :
    table.IsBest request address :=
  ⟨hcandidate, fun other hother hne => absurd (hall other hother) hne⟩

theorem isBest_override {table : Table} (hroot : table ⟨[], .override⟩ ≠ none)
    (request : List String) : table.IsBest request ⟨[], .override⟩ :=
  isBest_of_forall_eq ((candidate_iff_of_override hroot _).mpr rfl)
    fun other => (candidate_iff_of_override hroot other).mp

/-- The best candidate below a step is the best of all, unless the step is the one for
any text and there is a candidate below the literal. -/
theorem isBest_after {table : Table} (hroot : table ⟨[], .override⟩ = none)
    {component : String} (hne : component ≠ "") {rest : List String} {step : Step}
    {address : Address} (hstep : step = .dynamic ∨ step = .literal component)
    (hbest : (table.below step).IsBest rest address)
    (hfirst : step = .dynamic →
      ∀ other, ¬ (table.below (.literal component)).Candidate rest other) :
    table.IsBest (component :: rest) (address.after step) := by
  have hcandidate := candidate_cons_iff hroot component rest
  refine ⟨(hcandidate _).mpr ⟨hne, Or.inr ⟨_, _, rfl, hstep, hbest.candidate⟩⟩, ?_⟩
  intro other hother hdistinct
  obtain ⟨-, ⟨rfl, -⟩ | ⟨step', below, rfl, hstep', hbelow⟩⟩ := (hcandidate _).mp hother
  · exact Address.rank_root_lt_after ..
  · by_cases hsame : step' = step
    · subst hsame
      rw [Address.rank_after_lt_iff]
      exact hbest.rank_lt below hbelow fun heq => hdistinct (heq ▸ rfl)
    · rcases hstep' with rfl | rfl
      · obtain rfl : step = .literal component := hstep.resolve_left fun h => hsame h.symm
        exact Address.rank_dynamic_lt_literal ..
      · have hdynamic : step = .dynamic := hstep.resolve_right fun h => hsame h.symm
        exact absurd hbelow (hfirst hdynamic below)

/-- What the search finds comes before every other candidate. -/
theorem search?_isBest {table : Table} {request : List String} {address : Address}
    (h : search? request table = some address) : table.IsBest request address := by
  induction request generalizing table address with
  | nil =>
      by_cases hroot : table ⟨[], .override⟩ = none
      · rw [search?_nil hroot, here?_eq_some_iff] at h
        exact isBest_of_forall_eq ((candidate_nil_iff hroot _).mpr h)
          fun other hother => ((candidate_nil_iff hroot _).mp hother).1.trans h.1.symm
      · rw [search?_of_override hroot, Option.some.injEq] at h
        exact h ▸ isBest_override hroot []
  | cons component rest ih =>
      by_cases hroot : table ⟨[], .override⟩ = none
      · by_cases hne : component = ""
        · simp [search?, here?_eq_none_iff.mpr hroot, hne] at h
        rw [search?_cons hroot hne, Option.or_eq_some_iff, Option.or_eq_some_iff] at h
        -- the first of the three that leads anywhere is the best one
        rcases h with hliteral | ⟨hnoliteral, hdynamic | ⟨hnodynamic, hcatchAll⟩⟩
        · obtain ⟨found, hfound, rfl⟩ := Option.map_eq_some_iff.mp hliteral
          exact isBest_after hroot hne (Or.inr rfl) (ih hfound) fun h => nomatch h
        · obtain ⟨found, hfound, rfl⟩ := Option.map_eq_some_iff.mp hdynamic
          exact isBest_after hroot hne (Or.inl rfl) (ih hfound)
            fun _ => not_candidate_of_search? (Option.map_eq_none_iff.mp hnoliteral)
        · rw [here?_eq_some_iff] at hcatchAll
          have hcandidate := candidate_cons_iff hroot component rest
          refine isBest_of_forall_eq ((hcandidate _).mpr ⟨hne, Or.inl hcatchAll⟩) ?_
          intro other hother
          obtain ⟨-, ⟨rfl, -⟩ | ⟨step, below, rfl, rfl | rfl, hbelow⟩⟩ :=
            (hcandidate _).mp hother
          · exact hcatchAll.1.symm
          · exact absurd hbelow
              (not_candidate_of_search? (Option.map_eq_none_iff.mp hnodynamic) below)
          · exact absurd hbelow
              (not_candidate_of_search? (Option.map_eq_none_iff.mp hnoliteral) below)
      · rw [search?_of_override hroot, Option.some.injEq] at h
        exact h ▸ isBest_override hroot (component :: rest)

/-- The search finds the best candidate and nothing else. -/
theorem search?_eq_some_iff {table : Table} {request : List String} {address : Address} :
    search? request table = some address ↔ table.IsBest request address := by
  refine ⟨search?_isBest, fun h => ?_⟩
  cases hsearch : search? request table with
  | none => exact absurd h.candidate (not_candidate_of_search? hsearch address)
  | some found => rw [(search?_isBest hsearch).unique h]

theorem search?_eq_none_iff {table : Table} {request : List String} :
    search? request table = none ↔ ∀ address, ¬ table.Candidate request address := by
  refine ⟨not_candidate_of_search?, fun h => ?_⟩
  cases hsearch : search? request table with
  | none => rfl
  | some found => exact absurd (search?_isBest hsearch).candidate (h found)

/-! ## What is declared where the search ends -/

/-- What is declared at the address at which the search for a request ends. -/
def answer? (request : List String) (table : Table) : Option Slot :=
  (search? request table).bind table

theorem answer?_eq_some {table : Table} {request : List String} {address : Address}
    (h : table.IsBest request address) : answer? request table = table address := by
  simp [answer?, search?_eq_some_iff.mpr h]

theorem exists_isBest_of_answer? {table : Table} {request : List String} {slot : Slot}
    (h : answer? request table = some slot) :
    ∃ address, table.IsBest request address ∧ table address = some slot := by
  obtain ⟨address, hsearch, hslot⟩ := Option.bind_eq_some_iff.mp h
  exact ⟨address, search?_isBest hsearch, hslot⟩

theorem answer?_eq_none_iff {table : Table} {request : List String} :
    answer? request table = none ↔ ∀ address, ¬ table.Candidate request address := by
  rw [← search?_eq_none_iff, answer?]
  cases hsearch : search? request table with
  | none => simp
  | some address => simpa using (search?_isBest hsearch).candidate.live.declared

@[simp] theorem answer?_empty (request : List String) :
    answer? request (fun _ => none) = none := by
  simp [answer?]

theorem here?_bind (table : Table) (place : Place) :
    (table.here? place).bind table = table ⟨[], place⟩ := by
  cases hheld : table ⟨[], place⟩ <;> simp [here?, hheld]

theorem answer?_of_override {table : Table} (hroot : table ⟨[], .override⟩ ≠ none)
    (request : List String) : answer? request table = table ⟨[], .override⟩ :=
  answer?_eq_some (isBest_override hroot request)

theorem answer?_nil {table : Table} (hroot : table ⟨[], .override⟩ = none) :
    answer? [] table = table ⟨[], .exact⟩ := by
  rw [answer?, search?_nil hroot, here?_bind]

theorem answer?_empty_cons {table : Table} (hroot : table ⟨[], .override⟩ = none)
    (rest : List String) : answer? ("" :: rest) table = none := by
  rw [answer?, search?_empty_cons hroot, Option.bind_none]

/-- A search that has found something does not go on to the next subtree. -/
theorem or_bind_of_search? {table subtable : Table} {request : List String} {step : Step}
    (hbelow : table.below step = subtable) (other : Option Address) :
    (((search? request subtable).map (Address.after step)).or other).bind table =
      (answer? request subtable).or (other.bind table) := by
  subst hbelow
  cases hsearch : search? request (table.below step) with
  | none => simp [answer?, hsearch]
  | some found =>
      have hheld := (search?_isBest hsearch).candidate.live.declared
      obtain ⟨slot, hslot⟩ := Option.ne_none_iff_exists'.mp hheld
      have htable : table (found.after step) = some slot := hslot
      simp [answer?, hsearch, hslot, htable]

theorem answer?_cons {table : Table} (hroot : table ⟨[], .override⟩ = none)
    {component : String} (hne : component ≠ "") (rest : List String) :
    answer? (component :: rest) table =
      (answer? rest (table.below (.literal component))).or
        ((answer? rest (table.below .dynamic)).or (table ⟨[], .catchAll⟩)) := by
  rw [answer?, search?_cons hroot hne, or_bind_of_search? rfl, or_bind_of_search? rfl,
    here?_bind]

end RouteTree.Table

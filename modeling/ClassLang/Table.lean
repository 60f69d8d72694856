/-!
# Tables of named things

A finite map from names, kept as a list of entries in increasing order of
their names. The order is part of the type, which buys two things: listing a
table needs no sorting, and two tables that answer every look-up alike are
equal (`Table.ext_get?`).

* `get?`, `contains`, `names` — the views.
* `insert` — add an entry, or replace the one of that name.
* `set` — replace the entry of a name, if there is one. The names stay.
-/

namespace ClassLang

/-- A finite map from names, listed in the order of the names. -/
structure Table (α : Type) where
  /-- the entries -/
  entries : List (String × α)
  /-- their names increase -/
  sorted : entries.Pairwise (fun a b => a.1 < b.1)

namespace Table

variable {α : Type}

/-- The table without entries. -/
def empty : Table α := { entries := [], sorted := .nil }

instance : EmptyCollection (Table α) := ⟨empty⟩

instance : Inhabited (Table α) := ⟨empty⟩

/-- The entry of a name in a list of entries. -/
def find? (name : String) : List (String × α) → Option α
  | [] => none
  | (key, value) :: rest => if key = name then some value else find? name rest

/-- What the table holds under a name. -/
def get? (t : Table α) (name : String) : Option α := find? name t.entries

/-- Does the table hold something under this name? -/
def contains (t : Table α) (name : String) : Bool := (t.get? name).isSome

/-- The names of the entries, in order. -/
def names (t : Table α) : List String := t.entries.map Prod.fst

/-- The things held, in the order of their names. -/
def values (t : Table α) : List α := t.entries.map Prod.snd

/-- Insertion into a list of entries: the new entry comes before the first
larger name and replaces an equal one. -/
def insertEntry (name : String) (value : α) : List (String × α) → List (String × α)
  | [] => [(name, value)]
  | (key, old) :: rest =>
    if name < key then (name, value) :: (key, old) :: rest
    else if key = name then (name, value) :: rest
    else (key, old) :: insertEntry name value rest

theorem mem_insertEntry {name : String} {value : α} {entry : String × α} :
    ∀ {entries : List (String × α)}, entry ∈ insertEntry name value entries →
      entry = (name, value) ∨ entry ∈ entries
  | [], h => by simpa [insertEntry] using h
  | (key, old) :: rest, h => by
    unfold insertEntry at h
    split at h
    · simpa using h
    split at h
    · rcases List.mem_cons.mp h with h | h
      · exact .inl h
      · exact .inr (List.mem_cons_of_mem _ h)
    · rcases List.mem_cons.mp h with h | h
      · exact .inr (h ▸ List.mem_cons_self ..)
      · exact (mem_insertEntry h).imp_right (List.mem_cons_of_mem _)

theorem lt_of_not_lt_of_ne {a b : String} (hlt : ¬ a < b) (hne : b ≠ a) : b < a := by
  rcases Decidable.em (b < a) with h | h
  · exact h
  · exact absurd (String.le_antisymm (String.not_lt.mp hlt) (String.not_lt.mp h)) hne

theorem sorted_insertEntry (name : String) (value : α) :
    ∀ {entries : List (String × α)}, entries.Pairwise (fun a b => a.1 < b.1) →
      (insertEntry name value entries).Pairwise (fun a b => a.1 < b.1)
  | [], _ => by simp [insertEntry]
  | (key, old) :: rest, h => by
    obtain ⟨hhead, htail⟩ := List.pairwise_cons.mp h
    unfold insertEntry
    split
    · next hlt =>
      refine List.pairwise_cons.mpr ⟨fun entry hentry => ?_, h⟩
      rcases List.mem_cons.mp hentry with rfl | hentry
      · exact hlt
      · exact String.lt_trans hlt (hhead entry hentry)
    split
    · next heq => exact heq ▸ List.pairwise_cons.mpr ⟨hhead, htail⟩
    · next hlt hne =>
      refine List.pairwise_cons.mpr ⟨fun entry hentry => ?_, sorted_insertEntry name value htail⟩
      rcases mem_insertEntry hentry with rfl | hentry
      · exact lt_of_not_lt_of_ne hlt hne
      · exact hhead entry hentry

/-- The table with one more entry, which replaces an entry of the same name. -/
def insert (t : Table α) (name : String) (value : α) : Table α where
  entries := insertEntry name value t.entries
  sorted := sorted_insertEntry name value t.sorted

/-- Replacement in a list of entries. -/
def replaceEntry (name : String) (value : α) (entries : List (String × α)) :
    List (String × α) :=
  entries.map fun entry => if entry.1 = name then (entry.1, value) else entry

theorem map_fst_replaceEntry (name : String) (value : α) (entries : List (String × α)) :
    (replaceEntry name value entries).map Prod.fst = entries.map Prod.fst := by
  induction entries with
  | nil => rfl
  | cons entry rest ih =>
    simp only [replaceEntry, List.map_cons] at ih ⊢
    rw [ih]
    split <;> rfl

/-- The table with the entry of a name replaced; without such an entry it
stays as it is. -/
def set (t : Table α) (name : String) (value : α) : Table α where
  entries := replaceEntry name value t.entries
  sorted := by
    have h := List.pairwise_map.mpr t.sorted
    rw [← map_fst_replaceEntry name value] at h
    exact List.pairwise_map.mp h

/-- A table of the given entries, of which a later one replaces an earlier one
of the same name. -/
def ofList (entries : List (String × α)) : Table α :=
  entries.foldl (fun t entry => t.insert entry.1 entry.2) ∅

/-! ## Look-up after an update -/

@[simp] theorem get?_empty (name : String) : (∅ : Table α).get? name = none := rfl

theorem find?_insertEntry (name key : String) (value : α) (entries : List (String × α)) :
    find? key (insertEntry name value entries)
      = if name = key then some value else find? key entries := by
  induction entries with
  | nil => rfl
  | cons entry rest ih =>
    obtain ⟨k, old⟩ := entry
    unfold insertEntry
    split
    · rfl
    split
    · next heq =>
      subst heq
      unfold find?
      split <;> simp_all
    · next hne =>
      unfold find?
      split
      · next heq => subst heq; rw [if_neg (Ne.symm hne)]
      · exact ih

/-- After an insertion the new name holds the new thing, every other name what
it held before. -/
theorem get?_insert (t : Table α) (name key : String) (value : α) :
    (t.insert name value).get? key = if name = key then some value else t.get? key :=
  find?_insertEntry name key value t.entries

theorem find?_replaceEntry (name key : String) (value : α) (entries : List (String × α)) :
    find? key (replaceEntry name value entries)
      = if name = key then (find? key entries).map fun _ => value else find? key entries := by
  induction entries with
  | nil => simp [replaceEntry, find?]
  | cons entry rest ih =>
    obtain ⟨k, old⟩ := entry
    simp only [replaceEntry, List.map_cons] at ih ⊢
    by_cases hk : k = name
    · subst hk
      simp only [if_true, find?]
      split <;> simp_all
    · simp only [hk, if_false, find?]
      split
      · next heq => subst heq; rw [if_neg (Ne.symm hk)]
      · exact ih

/-- A replacement changes the look-up of its name only, and only if there was
something under it. -/
theorem get?_set (t : Table α) (name key : String) (value : α) :
    (t.set name value).get? key
      = if name = key then (t.get? key).map fun _ => value else t.get? key :=
  find?_replaceEntry name key value t.entries

@[simp] theorem names_set (t : Table α) (name : String) (value : α) :
    (t.set name value).names = t.names :=
  map_fst_replaceEntry name value t.entries

/-! ## Tables are determined by their look-ups -/

theorem find?_eq_some_of_mem {name : String} {value : α} :
    ∀ {entries : List (String × α)}, entries.Pairwise (fun a b => a.1 < b.1) →
      (name, value) ∈ entries → find? name entries = some value
  | (key, old) :: rest, hs, h => by
    obtain ⟨hhead, htail⟩ := List.pairwise_cons.mp hs
    rcases List.mem_cons.mp h with h | h
    · cases h; simp [find?]
    · have hlt : key < name := hhead _ h
      have hne : key ≠ name := fun heq => String.lt_irrefl _ (heq ▸ hlt)
      rw [find?, if_neg hne, find?_eq_some_of_mem htail h]

theorem mem_of_find?_eq_some {name : String} {value : α} :
    ∀ {entries : List (String × α)}, find? name entries = some value → (name, value) ∈ entries
  | (key, old) :: rest, h => by
    unfold find? at h
    split at h
    · next heq => cases h; exact heq ▸ List.mem_cons_self ..
    · exact List.mem_cons_of_mem _ (mem_of_find?_eq_some h)

/-- The entries of a table are what its look-ups find. -/
theorem mem_entries_iff (t : Table α) {name : String} {value : α} :
    (name, value) ∈ t.entries ↔ t.get? name = some value :=
  ⟨find?_eq_some_of_mem t.sorted, mem_of_find?_eq_some⟩

/-- A name is listed exactly if something is held under it. -/
theorem mem_names_iff (t : Table α) {name : String} :
    name ∈ t.names ↔ t.contains name = true := by
  simp only [names, List.mem_map, contains, Option.isSome_iff_exists, Prod.exists,
    exists_and_right, exists_eq_right, mem_entries_iff]

theorem mem_names_insert {t : Table α} {name other : String} {value : α} :
    other ∈ (t.insert name value).names ↔ other = name ∨ other ∈ t.names := by
  rw [mem_names_iff, mem_names_iff, contains, contains, get?_insert]
  by_cases h : name = other
  · simp [h]
  · simp [h, Ne.symm h]

theorem eq_of_mem_iff :
    ∀ {a b : List (String × α)}, a.Pairwise (fun x y => x.1 < y.1) →
      b.Pairwise (fun x y => x.1 < y.1) → (∀ entry, entry ∈ a ↔ entry ∈ b) → a = b
  | [], [], _, _, _ => rfl
  | [], y :: _, _, _, h => absurd ((h y).mpr (List.mem_cons_self ..)) (by simp)
  | x :: _, [], _, _, h => absurd ((h x).mp (List.mem_cons_self ..)) (by simp)
  | x :: a, y :: b, ha, hb, h => by
    obtain ⟨hxa, hsa⟩ := List.pairwise_cons.mp ha
    obtain ⟨hyb, hsb⟩ := List.pairwise_cons.mp hb
    have hxy : x = y := by
      rcases List.mem_cons.mp ((h x).mp (List.mem_cons_self ..)) with hx | hx
      · exact hx
      rcases List.mem_cons.mp ((h y).mpr (List.mem_cons_self ..)) with hy | hy
      · exact hy.symm
      · exact absurd (hyb x hx) (String.lt_asymm (hxa y hy))
    subst hxy
    congr 1
    refine eq_of_mem_iff hsa hsb fun entry => ⟨fun he => ?_, fun he => ?_⟩
    · rcases List.mem_cons.mp ((h entry).mp (List.mem_cons_of_mem _ he)) with heq | hmem
      · exact absurd (hxa entry he) (heq ▸ String.lt_irrefl _)
      · exact hmem
    · rcases List.mem_cons.mp ((h entry).mpr (List.mem_cons_of_mem _ he)) with heq | hmem
      · exact absurd (hyb entry he) (heq ▸ String.lt_irrefl _)
      · exact hmem

/-- **Extensionality.** Tables that answer every look-up alike are equal. -/
theorem ext_get? {s t : Table α} (h : ∀ name, s.get? name = t.get? name) : s = t := by
  have hentries : s.entries = t.entries :=
    eq_of_mem_iff s.sorted t.sorted fun ⟨name, value⟩ => by
      rw [mem_entries_iff, mem_entries_iff, h]
  cases s; cases t; cases hentries; rfl

/-! ## Tables from lists -/

theorem find?_eq_none_of_forall_ne {name : String} {entries : List (String × α)}
    (h : ∀ entry ∈ entries, entry.1 ≠ name) : find? name entries = none := by
  cases hfind : find? name entries with
  | none => rfl
  | some value => exact absurd rfl (h _ (mem_of_find?_eq_some hfind))

theorem get?_foldl_insert (name : String) :
    ∀ (entries : List (String × α)) (t : Table α), entries.Pairwise (fun a b => a.1 ≠ b.1) →
      (entries.foldl (fun t entry => t.insert entry.1 entry.2) t).get? name
        = (find? name entries).or (t.get? name)
  | [], _, _ => rfl
  | (key, value) :: rest, t, h => by
    obtain ⟨hhead, htail⟩ := List.pairwise_cons.mp h
    rw [List.foldl_cons, get?_foldl_insert name rest _ htail, get?_insert, find?]
    split
    · next heq =>
      rw [find?_eq_none_of_forall_ne fun entry hentry => heq ▸ (hhead entry hentry).symm]
      rfl
    · rfl

/-- Where no name comes twice, a table of a list finds what the list has. -/
theorem get?_ofList {entries : List (String × α)} (h : entries.Pairwise (fun a b => a.1 ≠ b.1))
    (name : String) : (ofList entries).get? name = find? name entries := by
  rw [ofList, get?_foldl_insert name entries ∅ h, get?_empty, Option.or_none]

/-- A table of a list has no entries but those of the list. -/
theorem mem_entries_ofList {entries : List (String × α)} {entry : String × α}
    (h : entry ∈ (ofList entries).entries) : entry ∈ entries := by
  let motive (t : Table α) : Prop := ∀ e ∈ t.entries, e ∈ entries
  refine List.foldlRecOn (motive := motive) entries _ (fun e he => by cases he) ?_ entry h
  intro t ht e he other hother
  rcases mem_insertEntry hother with rfl | hother
  · exact he
  · exact ht other hother

/-- Where no name comes twice, the entry that is found for a name is the one
that is there. -/
theorem find?_eq_some_iff {name : String} {value : α} :
    ∀ {entries : List (String × α)}, entries.Pairwise (fun a b => a.1 ≠ b.1) →
      (find? name entries = some value ↔ (name, value) ∈ entries)
  | [], _ => by simp [find?]
  | (key, old) :: rest, h => by
    obtain ⟨hhead, htail⟩ := List.pairwise_cons.mp h
    rw [find?, List.mem_cons]
    split
    · next heq =>
      subst heq
      have hrest : (key, value) ∉ rest := fun hmem => hhead _ hmem rfl
      simp [hrest, eq_comm]
    · next hne =>
      have hfirst : (name, value) ≠ (key, old) := fun heq => hne (congrArg Prod.fst heq).symm
      rw [find?_eq_some_iff htail, or_iff_right hfirst]

/-- Where no name comes twice, the order of a list leaves no trace in its
table. -/
theorem ofList_perm {entries entries' : List (String × α)} (hperm : entries.Perm entries')
    (h : entries.Pairwise (fun a b => a.1 ≠ b.1)) : ofList entries = ofList entries' := by
  have h' : entries'.Pairwise (fun a b => a.1 ≠ b.1) := hperm.pairwise h fun hne => hne.symm
  refine ext_get? fun name => Option.ext fun value => ?_
  rw [get?_ofList h, get?_ofList h', find?_eq_some_iff h, find?_eq_some_iff h', hperm.mem_iff]

/-- Where no name comes twice, a table of a list has just the entries of the
list. -/
theorem mem_entries_ofList_iff {entries : List (String × α)}
    (h : entries.Pairwise (fun a b => a.1 ≠ b.1)) {entry : String × α} :
    entry ∈ (ofList entries).entries ↔ entry ∈ entries := by
  rw [mem_entries_iff, get?_ofList h, find?_eq_some_iff h]

/-- No two entries of a table have one name. -/
theorem pairwise_ne (t : Table α) : t.entries.Pairwise (fun a b => a.1 ≠ b.1) :=
  t.sorted.imp fun {a b} (hlt : a.1 < b.1) (heq : a.1 = b.1) => String.lt_irrefl b.1 (heq ▸ hlt)

/-- A table is the table of its entries. -/
theorem ofList_entries (t : Table α) : ofList t.entries = t :=
  ext_get? (get?_ofList t.pairwise_ne)

theorem nodup_names (t : Table α) : t.names.Nodup :=
  List.pairwise_map.mpr t.pairwise_ne

end Table

end ClassLang

/-!
# Association lists

Maps that remember the order in which their keys came.  Setting a key that is there keeps its place;
adding one that is there changes nothing.

Every index, store and table of the project is such a list, because all of them are iterated in the
order of insertion and some promise that order to their callers.  Keys occur at most once in every
list that is built with `set` and `add`; the lemmas that need it take it as a hypothesis about the
list of keys, and `set`, `add` and `erase` keep it.

Erasing is a filter, so it is defined for keys that are not there as well, and what is said of
`get?` afterwards needs no case for them.  Lemmas about `get?` come in pairs, one for the key in
question and one for any other; these two are what most proofs about a store come down to.
-/

namespace PikeAnalysis.Assoc

variable {α β : Type} [DecidableEq α]

/-- The value of a key. -/
def get? (key : α) : List (α × β) → Option β
  | [] => none
  | (k, v) :: rest => if k = key then some v else get? key rest

/-- Whether a key is there. -/
def has (key : α) (entries : List (α × β)) : Bool :=
  (get? key entries).isSome

/-- Sets an entry: in place if the key is there, else at the end. -/
def set (key : α) (value : β) : List (α × β) → List (α × β)
  | [] => [(key, value)]
  | (k, v) :: rest => if k = key then (k, value) :: rest else (k, v) :: set key value rest

/-- Adds an entry at the end unless the key is there. -/
def add (key : α) (value : β) (entries : List (α × β)) : List (α × β) :=
  if has key entries then entries else entries ++ [(key, value)]

/-- Removes the entries of a key. -/
def erase (key : α) (entries : List (α × β)) : List (α × β) :=
  entries.filter fun e => decide (e.1 ≠ key)

/-- The keys in order. -/
def keys (entries : List (α × β)) : List α :=
  entries.map (·.1)

/-- Adds every entry of the second list whose key is not there yet. -/
def addAll (entries more : List (α × β)) : List (α × β) :=
  more.foldl (fun acc e => add e.1 e.2 acc) entries

/-! ## Small facts -/

@[simp] theorem get?_nil (key : α) : get? key ([] : List (α × β)) = none := rfl

@[simp] theorem get?_set_self (key : α) (value : β) (entries : List (α × β)) :
    get? key (set key value entries) = some value := by
  induction entries with
  | nil => simp [set, get?]
  | cons e rest ih =>
    obtain ⟨k, v⟩ := e
    by_cases h : k = key <;> simp [set, get?, h, ih]

theorem get?_set_of_ne {key other : α} (h : other ≠ key) (value : β) (entries : List (α × β)) :
    get? other (set key value entries) = get? other entries := by
  induction entries with
  | nil => simp [set, get?, Ne.symm h]
  | cons e rest ih =>
    obtain ⟨k, v⟩ := e
    by_cases hk : k = key
    · subst hk; simp [set, get?, Ne.symm h]
    · by_cases ho : k = other
      · subst ho; simp [set, get?, hk]
      · simp [set, get?, hk, ho, ih]

theorem set_of_get?_eq_none {key : α} {entries : List (α × β)} (h : get? key entries = none)
    (value : β) : set key value entries = entries ++ [(key, value)] := by
  induction entries with
  | nil => rfl
  | cons e rest ih =>
    obtain ⟨k, v⟩ := e
    by_cases hk : k = key
    · simp [get?, hk] at h
    · simp only [get?, hk, if_false] at h
      simp [set, hk, ih h]

theorem set_set (key : α) (value other : β) (entries : List (α × β)) :
    set key other (set key value entries) = set key other entries := by
  induction entries with
  | nil => simp [set]
  | cons e rest ih =>
    obtain ⟨k, v⟩ := e
    by_cases hk : k = key <;> simp [set, hk, ih]

theorem get?_append (key : α) (entries more : List (α × β)) :
    get? key (entries ++ more) = (get? key entries <|> get? key more) := by
  induction entries with
  | nil => simp
  | cons e rest ih =>
    obtain ⟨k, v⟩ := e
    by_cases h : k = key <;> simp [get?, h, ih]

@[simp] theorem get?_erase_self (key : α) (entries : List (α × β)) :
    get? key (erase key entries) = none := by
  induction entries with
  | nil => simp [erase]
  | cons e rest ih =>
    obtain ⟨k, v⟩ := e
    by_cases h : k = key
    · simpa [erase, h] using ih
    · simpa [erase, get?, h] using ih

theorem get?_erase_of_ne {key other : α} (h : other ≠ key) (entries : List (α × β)) :
    get? other (erase key entries) = get? other entries := by
  induction entries with
  | nil => simp [erase]
  | cons e rest ih =>
    obtain ⟨k, v⟩ := e
    by_cases hk : k = key
    · subst hk; simpa [erase, get?, Ne.symm h] using ih
    · by_cases ho : k = other
      · subst ho; simp [erase, get?, hk]
      · simpa [erase, get?, hk, ho] using ih

theorem get?_set (key other : α) (value : β) (entries : List (α × β)) :
    get? other (set key value entries) = if other = key then some value
      else get? other entries := by
  by_cases h : other = key
  · subst h
    simp
  · rw [get?_set_of_ne h, if_neg h]

theorem get?_erase (key other : α) (entries : List (α × β)) :
    get? other (erase key entries) = if other = key then none else get? other entries := by
  by_cases h : other = key
  · subst h
    simp
  · rw [get?_erase_of_ne h, if_neg h]

theorem of_get?_set {key other : α} {value found : β} {entries : List (α × β)}
    (h : get? other (set key value entries) = some found) :
    (other = key ∧ found = value) ∨ (other ≠ key ∧ get? other entries = some found) := by
  rw [get?_set] at h
  split at h
  · next he => exact .inl ⟨he, (Option.some.inj h).symm⟩
  · next hne => exact .inr ⟨hne, h⟩

theorem of_get?_erase {key other : α} {found : β} {entries : List (α × β)}
    (h : get? other (erase key entries) = some found) :
    other ≠ key ∧ get? other entries = some found := by
  rw [get?_erase] at h
  split at h
  · cases h
  · next hne => exact ⟨hne, h⟩

theorem get?_filter (p : α → Bool) (key : α) (entries : List (α × β)) :
    get? key (entries.filter fun e => p e.1) = if p key then get? key entries else none := by
  induction entries with
  | nil => simp
  | cons e rest ih =>
    obtain ⟨k, v⟩ := e
    by_cases hk : k = key
    · subst hk
      cases hp : p k with
      | true => simp [get?, hp]
      | false => simpa [hp] using ih
    · cases hp : p k with
      | true => simpa [get?, hp, hk] using ih
      | false => simpa [get?, hp, hk] using ih

theorem mem_of_get? {key : α} {value : β} {entries : List (α × β)}
    (h : get? key entries = some value) : (key, value) ∈ entries := by
  induction entries with
  | nil => simp at h
  | cons e rest ih =>
    obtain ⟨k, v⟩ := e
    by_cases hk : k = key
    · simp only [get?, hk, if_true, Option.some.injEq] at h
      simp [hk, h]
    · simp only [get?, hk, if_false] at h
      exact List.mem_cons_of_mem _ (ih h)

theorem get?_ne_none_of_mem {key : α} {value : β} {entries : List (α × β)}
    (h : (key, value) ∈ entries) : get? key entries ≠ none := by
  induction entries with
  | nil => simp at h
  | cons e rest ih =>
    obtain ⟨k, v⟩ := e
    by_cases hk : k = key
    · simp [get?, hk]
    · rcases List.mem_cons.mp h with he | hr
      · exact absurd (congrArg Prod.fst he).symm hk
      · simpa [get?, hk] using ih hr

/-- Where no two entries share a key, every entry is the one that is found. -/
theorem get?_of_mem {key : α} {value : β} {entries : List (α × β)}
    (unique : ∀ e ∈ entries, ∀ f ∈ entries, e.1 = f.1 → e = f) (h : (key, value) ∈ entries) :
    get? key entries = some value := by
  obtain ⟨found, hfound⟩ := Option.ne_none_iff_exists'.mp (get?_ne_none_of_mem h)
  have he := unique _ (mem_of_get? hfound) _ h rfl
  rw [hfound, (Prod.mk.inj he).2]

@[simp] theorem mem_erase {key : α} {e : α × β} {entries : List (α × β)} :
    e ∈ erase key entries ↔ e ∈ entries ∧ e.1 ≠ key := by
  simp [erase]

theorem erase_of_get?_eq_none {key : α} {entries : List (α × β)} (h : get? key entries = none) :
    erase key entries = entries := by
  refine List.filter_eq_self.mpr fun e he => decide_eq_true fun hk => ?_
  exact get?_ne_none_of_mem (show (key, e.2) ∈ entries from hk ▸ he) h

theorem mem_set {key : α} {value : β} {e : α × β} {entries : List (α × β)}
    (h : e ∈ set key value entries) : e = (key, value) ∨ e ∈ entries := by
  induction entries with
  | nil => exact .inl (List.mem_singleton.mp h)
  | cons f rest ih =>
    obtain ⟨k, v⟩ := f
    by_cases hk : k = key
    · subst hk
      simp only [set, if_true, List.mem_cons] at h
      exact h.imp_right (List.mem_cons_of_mem _)
    · simp only [set, hk, if_false, List.mem_cons] at h
      rcases h with rfl | h
      · exact .inr List.mem_cons_self
      · exact (ih h).imp_right (List.mem_cons_of_mem _)

/-! ## Keys -/

omit [DecidableEq α] in
@[simp] theorem keys_append (entries more : List (α × β)) :
    keys (entries ++ more) = keys entries ++ keys more :=
  List.map_append

omit [DecidableEq α] in
theorem mem_keys_of_mem {e : α × β} {entries : List (α × β)} (h : e ∈ entries) :
    e.1 ∈ keys entries :=
  List.mem_map_of_mem h

theorem mem_keys_iff {key : α} {entries : List (α × β)} :
    key ∈ keys entries ↔ get? key entries ≠ none := by
  constructor
  · intro h
    obtain ⟨⟨_, v⟩, he, rfl⟩ := List.mem_map.mp h
    exact get?_ne_none_of_mem he
  · intro h
    obtain ⟨v, hv⟩ := Option.ne_none_iff_exists'.mp h
    exact mem_keys_of_mem (mem_of_get? hv)

theorem get?_eq_none_iff {key : α} {entries : List (α × β)} :
    get? key entries = none ↔ key ∉ keys entries := by
  rw [mem_keys_iff, ne_eq, Decidable.not_not]

theorem mem_keys_iff_has {key : α} {entries : List (α × β)} :
    key ∈ keys entries ↔ has key entries = true := by
  rw [mem_keys_iff, has, Option.isSome_iff_ne_none]

theorem keys_erase (key : α) (entries : List (α × β)) :
    keys (erase key entries) = (keys entries).filter fun k => decide (k ≠ key) := by
  rw [keys, keys, erase, List.filter_map]
  rfl

/-- Erasing a key commutes with what leaves the keys as they are. -/
theorem erase_map {γ : Type} (f : α × β → γ) (key : α) (entries : List (α × β)) :
    erase key (entries.map fun e => (e.1, f e)) = (erase key entries).map fun e => (e.1, f e) := by
  rw [erase, erase, List.filter_map]
  rfl

/-- Where the keys are distinct, an entry is found under its key. -/
theorem get?_of_mem_of_nodup {e : α × β} {entries : List (α × β)} (distinct : (keys entries).Nodup)
    (h : e ∈ entries) : get? e.1 entries = some e.2 := by
  induction entries with
  | nil => exact absurd h List.not_mem_nil
  | cons f rest ih =>
    obtain ⟨k, v⟩ := f
    obtain ⟨hk, hrest⟩ := List.nodup_cons.mp distinct
    rcases List.mem_cons.mp h with rfl | hmem
    · simp [get?]
    · have hne : k ≠ e.1 := by
        intro hke
        have hkey : k ∈ keys rest := hke ▸ mem_keys_of_mem hmem
        exact hk hkey
      simpa [get?, hne] using ih hrest hmem

theorem mem_iff_get?_of_nodup {e : α × β} {entries : List (α × β)}
    (distinct : (keys entries).Nodup) :
    e ∈ entries ↔ get? e.1 entries = some e.2 :=
  ⟨get?_of_mem_of_nodup distinct, mem_of_get?⟩

theorem get?_of_perm {entries others : List (α × β)} (distinct : (keys entries).Nodup)
    (perm : entries.Perm others) (key : α) : get? key entries = get? key others := by
  have hother : (keys others).Nodup := (perm.map fun e : α × β => e.1).nodup_iff.mp distinct
  apply Option.ext
  intro v
  rw [← mem_iff_get?_of_nodup (e := (key, v)) distinct,
    ← mem_iff_get?_of_nodup (e := (key, v)) hother]
  exact perm.mem_iff

/-- Maps with distinct keys and the same values have the same entries. -/
theorem perm_of_get?_eq {entries others : List (α × β)} (distinct : (keys entries).Nodup)
    (hother : (keys others).Nodup) (same : ∀ key, get? key entries = get? key others) :
    entries.Perm others := by
  have nodup {l : List (α × β)} (h : (keys l).Nodup) : l.Nodup :=
    List.Pairwise.of_map (·.1) (fun _ _ hne heq => hne (congrArg Prod.fst heq)) h
  refine (List.perm_ext_iff_of_nodup (nodup distinct) (nodup hother)).mpr fun e => ?_
  rw [mem_iff_get?_of_nodup distinct, mem_iff_get?_of_nodup hother, same]

/-! ## Values -/

omit [DecidableEq α] in
theorem keys_map {γ : Type} (f : β → γ) (entries : List (α × β)) :
    keys (entries.map fun e => (e.1, f e.2)) = keys entries := by
  rw [keys, keys, List.map_map]
  rfl

theorem get?_map {γ : Type} (f : β → γ) (key : α) (entries : List (α × β)) :
    get? key (entries.map fun e => (e.1, f e.2)) = (get? key entries).map f := by
  induction entries with
  | nil => rfl
  | cons e rest ih =>
    obtain ⟨k, v⟩ := e
    by_cases h : k = key <;> simp [get?, h, ih]

/-! ## Adding -/

theorem get?_add (key other : α) (value : β) (entries : List (α × β)) :
    get? other (add key value entries) =
      (get? other entries <|> if key = other then some value else none) := by
  unfold add
  split
  · next hhas =>
    by_cases h : key = other
    · subst h
      obtain ⟨v, hv⟩ := Option.isSome_iff_exists.mp hhas
      simp [hv]
    · simp [h]
  · simp [get?_append, get?]

/-- Where every step adds at most one entry of a key, what is found is what the first step that adds
one adds. -/
theorem get?_foldl {γ : Type} {key : α} {f : List (α × β) → γ → List (α × β)} {g : γ → Option β}
    (step : ∀ acc x, get? key (f acc x) = (get? key acc <|> g x)) (xs : List γ)
    (acc : List (α × β)) : get? key (xs.foldl f acc) = (get? key acc <|> xs.findSome? g) := by
  induction xs generalizing acc with
  | nil => simp
  | cons x rest ih =>
    rw [List.foldl_cons, ih, step, List.findSome?_cons]
    cases get? key acc <;> cases g x <;> rfl

theorem findSome?_key (key : α) (entries : List (α × β)) :
    (entries.findSome? fun e => if e.1 = key then some e.2 else none) = get? key entries := by
  induction entries with
  | nil => rfl
  | cons e rest ih =>
    obtain ⟨k, v⟩ := e
    by_cases h : k = key <;> simp [get?, h, ih]

theorem get?_addAll (key : α) (entries more : List (α × β)) :
    get? key (addAll entries more) = (get? key entries <|> get? key more) := by
  rw [addAll, get?_foldl (fun acc e => get?_add e.1 key e.2 acc), findSome?_key]

theorem keys_add (key : α) (value : β) (entries : List (α × β)) :
    keys (add key value entries) = if key ∈ keys entries then keys entries else keys entries ++
      [key] := by
  unfold add
  simp only [← mem_keys_iff_has]
  split
  · rfl
  · exact keys_append _ _

/-- Adding entries one after the other keeps every key at its first place. -/
theorem keys_foldl_add {γ : Type} (f : γ → α) (g : γ → β) (xs : List γ) :
    keys (xs.foldl (fun acc x => add (f x) (g x) acc) []) = (xs.map f).eraseDups := by
  suffices h : ∀ (seen : List α) (acc : List (α × β)), keys acc = seen.eraseDups →
      keys (xs.foldl (fun acc x => add (f x) (g x) acc) acc) = (seen ++ xs.map f).eraseDups from
    h [] [] rfl
  induction xs with
  | nil => simp
  | cons x rest ih =>
    intro seen acc hacc
    have hadd : keys (add (f x) (g x) acc) = (seen ++ [f x]).eraseDups := by
      rw [keys_add, hacc, List.eraseDups_append]
      by_cases h : f x ∈ seen <;> simp [h, List.removeAll, List.eraseDups_cons]
    rw [List.foldl_cons, ih _ _ hadd, List.map_cons, List.append_assoc, List.singleton_append]

theorem nodup_keys_add {entries : List (α × β)} (h : (keys entries).Nodup) (key : α) (value : β) :
    (keys (add key value entries)).Nodup := by
  rw [keys_add]
  split
  · exact h
  · next hnew =>
    refine List.nodup_append.mpr
      ⟨h, List.pairwise_singleton _ key, fun k hk other hother heq => hnew ?_⟩
    rw [← List.mem_singleton.mp hother, ← heq]
    exact hk

theorem keys_set (key : α) (value : β) (entries : List (α × β)) :
    keys (set key value entries) = if key ∈ keys entries then keys entries else keys entries ++
      [key] := by
  induction entries with
  | nil => simp [set, keys]
  | cons e rest ih =>
    obtain ⟨k, v⟩ := e
    simp only [keys, List.map_cons] at ih ⊢
    by_cases hk : k = key
    · simp [set, hk]
    · rw [set, if_neg hk, List.map_cons, ih]
      by_cases hmem : key ∈ rest.map (·.1) <;> simp [hmem, Ne.symm hk]

theorem nodup_keys_set {entries : List (α × β)} (h : (keys entries).Nodup) (key : α) (value : β) :
    (keys (set key value entries)).Nodup := by
  rw [keys_set, ← keys_add key value]
  exact nodup_keys_add h key value

end PikeAnalysis.Assoc

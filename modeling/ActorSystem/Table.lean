/-!
Finite maps as lists of pairs, in the order in which the keys first came in.
-/

set_option autoImplicit false

namespace ActorSystem

@[ext] structure Table (α β : Type) where
  entries : List (α × β)
  nodup : (entries.map Prod.fst).Nodup

namespace Table

variable {α β : Type}

def empty : Table α β := ⟨[], .nil⟩

instance : Inhabited (Table α β) := ⟨empty⟩

def keys (t : Table α β) : List α := t.entries.map Prod.fst

def values (t : Table α β) : List β := t.entries.map Prod.snd

def size (t : Table α β) : Nat := t.entries.length

def isEmpty (t : Table α β) : Bool := t.entries.isEmpty

def filter (t : Table α β) (p : α → Bool) : Table α β where
  entries := t.entries.filter fun e => p e.1
  nodup := t.nodup.sublist (List.filter_sublist.map _)

variable [DecidableEq α]

def lookup : List (α × β) → α → Option β
  | [], _ => none
  | (a, b) :: rest, k => if a = k then some b else lookup rest k

def get? (t : Table α β) (k : α) : Option β := lookup t.entries k

def contains (t : Table α β) (k : α) : Bool := (t.get? k).isSome

def put : List (α × β) → α → β → List (α × β)
  | [], k, v => [(k, v)]
  | (a, b) :: rest, k, v => if a = k then (a, v) :: rest else (a, b) :: put rest k v

theorem mem_put {l : List (α × β)} {k : α} {v : β} {e : α × β} (h : e ∈ put l k v) :
    e = (k, v) ∨ e ∈ l := by
  induction l with
  | nil => exact .inl (List.mem_singleton.1 h)
  | cons x rest ih =>
    rw [put] at h
    split at h
    · rename_i hk
      obtain rfl := hk
      exact (List.mem_cons.1 h).imp_right (List.mem_cons_of_mem _)
    · rcases List.mem_cons.1 h with rfl | h
      · exact .inr List.mem_cons_self
      · exact (ih h).imp_right (List.mem_cons_of_mem _)

theorem nodup_put {l : List (α × β)} (h : (l.map Prod.fst).Nodup) (k : α) (v : β) :
    ((put l k v).map Prod.fst).Nodup := by
  induction l with
  | nil => exact List.nodup_cons.2 ⟨List.not_mem_nil, .nil⟩
  | cons e rest ih =>
    obtain ⟨hnot, hrest⟩ := List.nodup_cons.1 h
    rw [put]
    split
    · exact h
    · rename_i hne
      refine List.nodup_cons.2 ⟨fun hmem => ?_, ih hrest⟩
      obtain ⟨e', he', hkey⟩ := List.mem_map.1 hmem
      rcases mem_put he' with rfl | he'
      · exact hne hkey.symm
      · exact hnot (hkey ▸ List.mem_map_of_mem he')

def insert (t : Table α β) (k : α) (v : β) : Table α β := ⟨put t.entries k v, nodup_put t.nodup k v⟩

def erase (t : Table α β) (k : α) : Table α β := t.filter (· ≠ k)

def only (t : Table α β) (ks : List α) : Table α β := t.filter (· ∈ ks)

def without (t : Table α β) (ks : List α) : Table α β := t.filter (· ∉ ks)

theorem lookup_put (l : List (α × β)) (k k' : α) (v : β) :
    lookup (put l k v) k' = if k = k' then some v else lookup l k' := by
  induction l with
  | nil => simp [put, lookup]
  | cons e rest ih =>
    obtain ⟨a, b⟩ := e
    by_cases h : a = k
    · subst h
      by_cases h' : a = k' <;> simp [put, lookup, h']
    · by_cases h' : a = k'
      · subst h'
        simp [put, lookup, h, Ne.symm h]
      · simp [put, lookup, h, h', ih]

theorem get?_insert (t : Table α β) (k k' : α) (v : β) :
    (t.insert k v).get? k' = if k = k' then some v else t.get? k' :=
  lookup_put t.entries k k' v

theorem get?_filter (t : Table α β) (p : α → Bool) (k : α) :
    (t.filter p).get? k = if p k then t.get? k else none := by
  unfold get? filter
  dsimp only
  induction t.entries with
  | nil => simp [lookup]
  | cons e rest ih =>
    obtain ⟨a, b⟩ := e
    by_cases h : a = k
    · subst h
      cases hp : p a <;> simp_all [lookup]
    · cases hp : p a <;> simp_all [lookup]

theorem get?_erase (t : Table α β) (k k' : α) :
    (t.erase k).get? k' = if k = k' then none else t.get? k' := by
  rw [erase, get?_filter]
  by_cases h : k = k'
  · simp [h]
  · simp [h, Ne.symm h]

@[simp] theorem get?_empty (k : α) : (empty : Table α β).get? k = none := rfl

omit [DecidableEq α] in
theorem filter_eq_self {t : Table α β} {p : α → Bool} (h : ∀ k ∈ t.keys, p k = true) :
    t.filter p = t := by
  refine Table.ext (List.filter_eq_self.2 fun e he => ?_)
  exact h e.1 (List.mem_map_of_mem he)

omit [DecidableEq α] in
@[simp] theorem filter_empty (p : α → Bool) : (empty : Table α β).filter p = empty := rfl

@[simp] theorem erase_empty (k : α) : (empty : Table α β).erase k = empty := rfl

@[simp] theorem only_empty (ks : List α) : (empty : Table α β).only ks = empty := rfl

@[simp] theorem without_empty (ks : List α) : (empty : Table α β).without ks = empty := rfl

omit [DecidableEq α] in
@[simp] theorem values_empty : (empty : Table α β).values = [] := rfl

theorem get?_eq_none_iff {t : Table α β} {k : α} : t.get? k = none ↔ k ∉ t.keys := by
  unfold get? keys
  induction t.entries with
  | nil => simp [lookup]
  | cons e rest ih =>
    obtain ⟨a, b⟩ := e
    by_cases h : a = k
    · simp [lookup, h]
    · simp [lookup, h, ih, Ne.symm h]

theorem erase_of_get?_none {t : Table α β} {k : α} (h : t.get? k = none) : t.erase k = t := by
  refine filter_eq_self fun k' hk' => ?_
  have hne : k' ≠ k := fun heq => get?_eq_none_iff.1 h (heq ▸ hk')
  simpa using hne

omit [DecidableEq α] in
theorem values_filter (t : Table α β) (p : α → Bool) :
    t.values.Perm ((t.filter p).values ++ (t.filter fun k => !p k).values) := by
  have hperm := (List.filter_append_perm (fun e => p e.1) t.entries).symm.map Prod.snd
  rwa [List.map_append] at hperm

theorem values_only (t : Table α β) (ks : List α) :
    t.values.Perm ((t.only ks).values ++ (t.without ks).values) := by
  have hperm := t.values_filter (· ∈ ks)
  simpa only [only, without, decide_not] using hperm

theorem values_perm_erase (t : Table α β) (k : α) :
    t.values.Perm ((t.get? k).toList ++ (t.erase k).values) := by
  obtain ⟨l, hl⟩ := t
  induction l with
  | nil => exact .refl _
  | cons e rest ih =>
    obtain ⟨a, b⟩ := e
    obtain ⟨hnot, hrest⟩ := List.nodup_cons.1 hl
    by_cases h : a = k
    · subst h
      have hsame : (Table.mk rest hrest).erase a = ⟨rest, hrest⟩ :=
        erase_of_get?_none (get?_eq_none_iff.2 hnot)
      have hentries : rest.filter (fun e => decide (e.1 ≠ a)) = rest := congrArg entries hsame
      simp only [values, get?, lookup, if_true, erase, filter, List.map_cons]
      rw [List.filter_cons_of_neg (by simp), hentries]
      exact .refl _
    · have hperm := (ih hrest).cons b
      simp only [values, get?, erase, filter] at hperm
      simp only [values, get?, lookup, if_neg h, erase, filter, List.map_cons]
      rw [List.filter_cons_of_pos (by simpa using h), List.map_cons]
      exact hperm.trans List.perm_middle.symm

theorem insert_entries {t : Table α β} {k : α} (h : t.get? k = none) (v : β) :
    (t.insert k v).entries = t.entries ++ [(k, v)] := by
  unfold get? at h
  unfold insert
  dsimp only
  generalize t.entries = l at h
  induction l with
  | nil => rfl
  | cons e rest ih =>
    obtain ⟨a, b⟩ := e
    by_cases ha : a = k
    · simp [lookup, ha] at h
    · simp [put, ha, ih (by simpa [lookup, ha] using h)]

theorem values_replace (t : Table α β) (k : α) (v : β) :
    ((t.erase k).insert k v).values = (t.erase k).values ++ [v] := by
  have hnone : (t.erase k).get? k = none := by simp [get?_erase]
  simp [values, insert_entries hnone]

end Table

end ActorSystem

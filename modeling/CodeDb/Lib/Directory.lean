import Mathlib.Data.List.Nodup
import Mathlib.Data.List.Perm.Basic
import Mathlib.Logic.ExistsUnique

/-!
# Directories

A directory lists, place by place, the names of owners. In a well-formed directory
a name stands for one owner, and an owner has its names in one place, one of them
its preferred name. The edits a directory goes through keep it so.

## Main definitions

* `Directory.Entry` — a name of an owner in a place
* `Directory.WellFormed`

## Main results

* `WellFormed.append` — two directories in one
* `WellFormed.add`, `WellFormed.addAlias` — new names
* `WellFormed.rename`, `WellFormed.move` — names that change
* `WellFormed.filter` — names that are taken away
-/

namespace Directory

/-- A name of an owner in a place. -/
structure Entry (μ ν ο : Type*) where
  place : μ
  name : ν
  owner : ο
  preferred : Bool

variable {μ ν ο : Type*}

/-- Where an entry is found. -/
def Entry.key (e : Entry μ ν ο) : μ × ν := (e.place, e.name)

/-- A name stands for one owner, and an owner has its names in one place, exactly
one of them preferred. -/
structure WellFormed (entries : List (Entry μ ν ο)) : Prop where
  distinct : (entries.map Entry.key).Nodup
  preferred : ∀ e ∈ entries, ∃! p, p ∈ entries ∧ p.owner = e.owner ∧ p.preferred = true
  together : ∀ e ∈ entries, ∀ f ∈ entries, e.owner = f.owner → e.place = f.place

namespace WellFormed

variable {entries entries' : List (Entry μ ν ο)} {place : μ} {name : ν} {owner : ο}

theorem nil : WellFormed ([] : List (Entry μ ν ο)) := ⟨by simp, by simp, by simp⟩

theorem perm (wf : WellFormed entries) (h : entries.Perm entries') : WellFormed entries' where
  distinct := (h.map _).nodup_iff.mp wf.distinct
  preferred e he := by simpa [h.mem_iff] using wf.preferred e (h.mem_iff.mpr he)
  together e he f hf := wf.together e (h.mem_iff.mpr he) f (h.mem_iff.mpr hf)

/-- Entries with one key are one entry. -/
theorem eq_of_key (wf : WellFormed entries) {e f : Entry μ ν ο} (he : e ∈ entries)
    (hf : f ∈ entries) (same : e.key = f.key) : e = f :=
  List.inj_on_of_nodup_map wf.distinct he hf same

theorem singleton : WellFormed [(⟨place, name, owner, true⟩ : Entry μ ν ο)] where
  distinct := List.nodup_singleton _
  preferred e he := by
    obtain rfl := List.mem_singleton.mp he
    exact ⟨_, ⟨he, rfl, rfl⟩, fun q hq => List.mem_singleton.mp hq.1⟩
  together e he f hf _ := by rw [List.mem_singleton.mp he, List.mem_singleton.mp hf]

/-- Two directories that share no names and no owners are one directory. -/
theorem append (wf : WellFormed entries) (wf' : WellFormed entries')
    (keys : ∀ e ∈ entries, ∀ f ∈ entries', e.key ≠ f.key)
    (owners : ∀ e ∈ entries, ∀ f ∈ entries', e.owner ≠ f.owner) :
    WellFormed (entries ++ entries') where
  distinct := by
    rw [List.map_append]
    refine List.nodup_append.mpr ⟨wf.distinct, wf'.distinct, ?_⟩
    rintro _ ha _ hb same
    obtain ⟨e, he, rfl⟩ := List.mem_map.mp ha
    obtain ⟨f, hf, rfl⟩ := List.mem_map.mp hb
    exact keys e he f hf same
  preferred e he := by
    rcases List.mem_append.mp he with he | he
    · obtain ⟨p, ⟨hp, same, isPreferred⟩, only⟩ := wf.preferred e he
      refine ⟨p, ⟨List.mem_append_left _ hp, same, isPreferred⟩, ?_⟩
      rintro q ⟨hq, sameQ, preferredQ⟩
      rcases List.mem_append.mp hq with hq | hq
      · exact only q ⟨hq, sameQ, preferredQ⟩
      · exact absurd sameQ.symm (owners e he q hq)
    · obtain ⟨p, ⟨hp, same, isPreferred⟩, only⟩ := wf'.preferred e he
      refine ⟨p, ⟨List.mem_append_right _ hp, same, isPreferred⟩, ?_⟩
      rintro q ⟨hq, sameQ, preferredQ⟩
      rcases List.mem_append.mp hq with hq | hq
      · exact absurd sameQ (owners q hq e he)
      · exact only q ⟨hq, sameQ, preferredQ⟩
  together e he f hf same := by
    rcases List.mem_append.mp he with he | he <;> rcases List.mem_append.mp hf with hf | hf
    · exact wf.together e he f hf same
    · exact absurd same (owners e he f hf)
    · exact absurd same.symm (owners f hf e he)
    · exact wf'.together e he f hf same

/-- A new owner gets a free name, its preferred one. -/
theorem add (wf : WellFormed entries) (free : (place, name) ∉ entries.map Entry.key)
    (fresh : ∀ e ∈ entries, e.owner ≠ owner) :
    WellFormed (entries ++ [⟨place, name, owner, true⟩]) := by
  refine wf.append singleton (fun e he f hf same => ?_) fun e he f hf same => ?_
  · obtain rfl := List.mem_singleton.mp hf
    exact free (List.mem_map.mpr ⟨e, he, same⟩)
  · obtain rfl := List.mem_singleton.mp hf
    exact fresh e he same

/-- An owner gets one more free name, where its other names are. -/
theorem addAlias (wf : WellFormed entries) (free : (place, name) ∉ entries.map Entry.key)
    {known : Entry μ ν ο} (listed : known ∈ entries) (owned : known.owner = owner)
    (placed : known.place = place) : WellFormed (entries ++ [⟨place, name, owner, false⟩]) where
  distinct := by
    rw [List.map_append, List.map_singleton]
    refine List.nodup_append.mpr ⟨wf.distinct, List.nodup_singleton _, ?_⟩
    rintro a ha b hb rfl
    rw [List.mem_singleton.mp hb] at ha
    exact free ha
  preferred e he := by
    have old : ∃ f ∈ entries, f.owner = e.owner := by
      rcases List.mem_append.mp he with he | he
      · exact ⟨e, he, rfl⟩
      · rw [List.mem_singleton.mp he]
        exact ⟨known, listed, owned⟩
    obtain ⟨f, hf, sameF⟩ := old
    obtain ⟨p, ⟨hp, same, isPreferred⟩, only⟩ := wf.preferred f hf
    refine ⟨p, ⟨List.mem_append_left _ hp, same.trans sameF, isPreferred⟩, ?_⟩
    rintro q ⟨hq, sameQ, preferredQ⟩
    rcases List.mem_append.mp hq with hq | hq
    · exact only q ⟨hq, sameQ.trans sameF.symm, preferredQ⟩
    · rw [List.mem_singleton.mp hq] at preferredQ
      exact absurd preferredQ Bool.false_ne_true
  together e he f hf same := by
    have placeOf : ∀ g ∈ entries, g.owner = owner → g.place = place := fun g hg ownedG =>
      (wf.together g hg known listed (ownedG.trans owned.symm)).trans placed
    rcases List.mem_append.mp he with he | he <;> rcases List.mem_append.mp hf with hf | hf
    · exact wf.together e he f hf same
    · obtain rfl := List.mem_singleton.mp hf
      exact placeOf e he same
    · obtain rfl := List.mem_singleton.mp he
      exact (placeOf f hf same.symm).symm
    · rw [List.mem_singleton.mp he, List.mem_singleton.mp hf]

/-- Names may be taken away as long as each owner keeps its preferred name, or
loses all of its names. -/
theorem filter (wf : WellFormed entries) (keep : Entry μ ν ο → Bool)
    (keeps : ∀ e ∈ entries, keep e → ∀ p ∈ entries, p.owner = e.owner → p.preferred → keep p) :
    WellFormed (entries.filter keep) where
  distinct := wf.distinct.sublist (List.filter_sublist.map _)
  preferred e he := by
    obtain ⟨he, kept⟩ := List.mem_filter.mp he
    obtain ⟨p, ⟨hp, same, isPreferred⟩, only⟩ := wf.preferred e he
    refine ⟨p, ⟨List.mem_filter.mpr ⟨hp, keeps e he kept p hp same isPreferred⟩, same,
      isPreferred⟩, ?_⟩
    rintro q ⟨hq, sameQ, preferredQ⟩
    exact only q ⟨List.mem_of_mem_filter hq, sameQ, preferredQ⟩
  together e he f hf :=
    wf.together e (List.mem_of_mem_filter he) f (List.mem_of_mem_filter hf)

/-- An edit that keeps owners, preferences, the distinctness of keys and the
togetherness of places keeps a directory well formed. -/
theorem map (wf : WellFormed entries) (edit : Entry μ ν ο → Entry μ ν ο)
    (owners : ∀ e, (edit e).owner = e.owner) (preferences : ∀ e, (edit e).preferred = e.preferred)
    (apart : ∀ e ∈ entries, ∀ f ∈ entries, (edit e).key = (edit f).key → e.key = f.key)
    (places : ∀ e ∈ entries, ∀ f ∈ entries, e.owner = f.owner → (edit e).place = (edit f).place) :
    WellFormed (entries.map edit) where
  distinct := by
    rw [List.map_map]
    exact (List.nodup_map_iff_inj_on (List.Nodup.of_map _ wf.distinct)).mpr
      fun e he f hf same => wf.eq_of_key he hf (apart e he f hf same)
  preferred e he := by
    obtain ⟨e, mem, rfl⟩ := List.mem_map.mp he
    obtain ⟨p, ⟨hp, same, isPreferred⟩, only⟩ := wf.preferred e mem
    refine ⟨edit p, ⟨List.mem_map_of_mem hp, by rw [owners, owners, same],
      by rw [preferences, isPreferred]⟩, ?_⟩
    rintro q ⟨hq, sameQ, preferredQ⟩
    obtain ⟨q, memQ, rfl⟩ := List.mem_map.mp hq
    rw [owners, owners] at sameQ
    rw [preferences] at preferredQ
    rw [only q ⟨memQ, sameQ, preferredQ⟩]
  together e he f hf same := by
    obtain ⟨e, memE, rfl⟩ := List.mem_map.mp he
    obtain ⟨f, memF, rfl⟩ := List.mem_map.mp hf
    rw [owners, owners] at same
    exact places e memE f memF same

variable [DecidableEq μ] [DecidableEq ν] [DecidableEq ο]

/-- A preferred name is replaced by a free one. -/
theorem rename (wf : WellFormed entries) (oldName : ν) (owner : ο) {newName : ν}
    (free : (place, newName) ∉ entries.map Entry.key) :
    WellFormed (entries.map fun e =>
      if e.place == place && e.name == oldName && e.owner == owner && e.preferred
      then { e with name := newName } else e) := by
  have notFree : ∀ e ∈ entries, e.key ≠ (place, newName) := fun e he same =>
    free (same ▸ List.mem_map_of_mem he)
  refine wf.map _ (fun e => by split_ifs <;> rfl) (fun e => by split_ifs <;> rfl) ?_ ?_
  · intro e he f hf same
    split_ifs at same with hitE hitF hitF
    · simp only [Bool.and_eq_true, beq_iff_eq] at hitE hitF
      simp [Entry.key, hitE.1.1.1, hitE.1.1.2, hitF.1.1.1, hitF.1.1.2]
    · simp only [Bool.and_eq_true, beq_iff_eq] at hitE
      exact absurd same.symm (by simpa [Entry.key, hitE.1.1.1] using notFree f hf)
    · simp only [Bool.and_eq_true, beq_iff_eq] at hitF
      exact absurd same (by simpa [Entry.key, hitF.1.1.1] using notFree e he)
    · exact same
  · intro e he f hf same
    have placeKept : ∀ g : Entry μ ν ο, (if g.place == place && g.name == oldName &&
        g.owner == owner && g.preferred then { g with name := newName } else g).place =
        g.place := fun g => by split_ifs <;> rfl
    rw [placeKept, placeKept]
    exact wf.together e he f hf same

omit [DecidableEq ν] in
/-- The names of an owner are moved to another place, where nobody else has them. -/
theorem move (wf : WellFormed entries) {newPlace : μ}
    {known : Entry μ ν ο} (listed : known ∈ entries) (owned : known.owner = owner)
    (placed : known.place = place)
    (free : ∀ e ∈ entries, e.owner = owner → ∀ f ∈ entries, f.owner ≠ owner →
      f.key ≠ (newPlace, e.name)) :
    WellFormed (entries.map fun e =>
      if e.place == place && e.owner == owner then { e with place := newPlace } else e) := by
  have placeOf : ∀ e ∈ entries, e.owner = owner → e.place = place := fun e he ownedE =>
    (wf.together e he known listed (ownedE.trans owned.symm)).trans placed
  have hits : ∀ e ∈ entries, (e.place == place && e.owner == owner) = true ↔ e.owner = owner := by
    intro e he
    simp only [Bool.and_eq_true, beq_iff_eq]
    exact ⟨And.right, fun ownedE => ⟨placeOf e he ownedE, ownedE⟩⟩
  refine wf.map _ (fun e => by split_ifs <;> rfl) (fun e => by split_ifs <;> rfl) ?_ ?_
  · intro e he f hf same
    simp only [hits e he, hits f hf] at same
    split_ifs at same with ownedE ownedF ownedF
    · have names : e.name = f.name := congrArg Prod.snd same
      simp [Entry.key, placeOf e he ownedE, placeOf f hf ownedF, names]
    · exact absurd same.symm (free e he ownedE f hf ownedF)
    · exact absurd same (free f hf ownedF e he ownedE)
    · exact same
  · intro e he f hf same
    simp only [hits e he, hits f hf]
    by_cases ownedF : f.owner = owner
    · rw [if_pos (same.trans ownedF), if_pos ownedF]
    · rw [if_neg (same ▸ ownedF), if_neg ownedF]
      exact wf.together e he f hf same

end WellFormed

end Directory

import AudioPipeline.Lib.MinHeap
import AudioPipeline.Log.Levels
import Mathlib.Data.List.Perm.Basic

/-!
# The cache of the log levels

`Cached s es` describes the cache by its entries from the least to the most recently used one: that
is the order of their generations.

* `log_checks_hold`: no check of the heap order fails;
* `log_cache_lru`: the cached tags are those of an LRU cache;
* `log_levels_iff`: the cache cannot be told from the levels that were set, if and only if no two
  tags have the same text.
-/

namespace AudioPipeline

open MinHeap

/-! ### Bubbling down -/

namespace LogState

variable {cache : ℕ → CachedTagEntry} {text : ℕ → List UInt8} {s s' : LogState}

theorem heapSwap_eq (cache : ℕ → CachedTagEntry) (i j : ℕ) :
    heapSwap cache i j = cache ∘ Equiv.swap i j := by
  rw [heapSwap, Equiv.swap_comm, Equiv.comp_swap_eq_update]

/-- The generations are pairwise different. -/
def Distinct (n : ℕ) (cache : ℕ → CachedTagEntry) : Prop :=
  ∀ i < n, ∀ j < n, (cache i).generation = (cache j).generation → i = j

theorem Distinct.swap {n i j : ℕ} (h : Distinct n cache) (hi : i < n) (hj : j < n) :
    Distinct n (cache ∘ Equiv.swap i j) := by
  have hlt : ∀ k < n, Equiv.swap i j k < n := fun k hk => by
    rw [Equiv.swap_apply_def]
    split_ifs <;> assumption
  intro k hk m hm heq
  exact (Equiv.swap i j).injective (h _ (hlt k hk) _ (hlt m hm) heq)

/-- The entry at `k` has the greatest generation. -/
def Newest (n k : ℕ) (cache : ℕ → CachedTagEntry) : Prop :=
  ∀ i < n, i ≠ k → (cache i).generation < (cache k).generation

theorem Newest.swap {n k c : ℕ} (h : Newest n k cache) (hc : c < n) (hkc : k ≠ c) :
    Newest n c (cache ∘ Equiv.swap k c) := by
  intro i hi hic
  simp only [Function.comp_apply, Equiv.swap_apply_right]
  by_cases hik : i = k
  · rw [hik, Equiv.swap_apply_left]
    exact h c hc hkc.symm
  · rw [Equiv.swap_apply_of_ne_of_ne hik hic]
    exact h i hi hik

/-- **The loop**: the swaps restore the order, and the entries stay the same. -/
theorem bubbleLoop_spec (fuel : ℕ) {k : ℕ} (hfuel : TAG_CACHE_SIZE / 2 ≤ k + fuel)
    (hk : k < TAG_CACHE_SIZE) (hdist : Distinct TAG_CACHE_SIZE cache)
    (hnew : Newest TAG_CACHE_SIZE k cache)
    (hbut : OrderedBut CachedTagEntry.generation TAG_CACHE_SIZE k cache) :
    Ordered CachedTagEntry.generation TAG_CACHE_SIZE (bubbleLoop fuel cache k) ∧
      (entries TAG_CACHE_SIZE (bubbleLoop fuel cache k)).Perm (entries TAG_CACHE_SIZE cache) := by
  have hsize : TAG_CACHE_SIZE = 31 := rfl
  induction fuel generalizing k cache with
  | zero => exact ⟨hbut.ordered (by omega), List.Perm.refl _⟩
  | succ fuel ih =>
    rw [bubbleLoop]
    by_cases hleaf : k < TAG_CACHE_SIZE / 2
    · rw [if_pos hleaf]
      simp only [heapSwap_eq]
      -- Whichever child is the smaller one, the loop goes on there.
      have hdown : ∀ c, 0 < c → c < TAG_CACHE_SIZE → (c - 1) / 2 = k →
          (∀ d, 0 < d → d < TAG_CACHE_SIZE → (d - 1) / 2 = k → d ≠ c →
            (cache c).generation < (cache d).generation) →
          Ordered CachedTagEntry.generation TAG_CACHE_SIZE
              (bubbleLoop fuel (cache ∘ Equiv.swap k c) c) ∧
            (entries TAG_CACHE_SIZE (bubbleLoop fuel (cache ∘ Equiv.swap k c) c)).Perm
              (entries TAG_CACHE_SIZE cache) := fun c hpos hc hck hleast => by
        have hkc : k ≠ c := by omega
        obtain ⟨hord, hperm⟩ := ih (by omega) hc (hdist.swap hk hc) (hnew.swap hc hkc)
          (hbut.swap hpos hc hck (hnew c hc hkc.symm) hleast)
        exact ⟨hord, hperm.trans (entries_swap hk hc)⟩
      have hsib : (cache (k * 2 + 1)).generation ≠ (cache (k * 2 + 2)).generation := fun heq => by
        have := hdist _ (by omega) _ (by omega) heq
        omega
      split_ifs with hlt
      · refine hdown (k * 2 + 1) (by omega) (by omega) (by omega) fun d hd0 hd hdk hne => ?_
        rw [show d = k * 2 + 2 by omega]
        exact hlt
      · refine hdown (k * 2 + 2) (by omega) (by omega) (by omega) fun d hd0 hd hdk hne => ?_
        rw [show d = k * 2 + 1 by omega]
        exact lt_of_le_of_ne (not_lt.mp hlt) hsib.symm
    · rw [if_neg hleaf]
      exact ⟨hbut.ordered (by omega), List.Perm.refl _⟩

/-- `heap_bubble_down`, once the entry at `k` of a heap has got the greatest generation. -/
theorem heapBubbleDown_spec {k : ℕ} {e : CachedTagEntry} (hk : k < TAG_CACHE_SIZE)
    (hdist : Distinct TAG_CACHE_SIZE cache)
    (hord : Ordered CachedTagEntry.generation TAG_CACHE_SIZE cache)
    (hnew : ∀ i < TAG_CACHE_SIZE, (cache i).generation < e.generation) :
    Ordered CachedTagEntry.generation TAG_CACHE_SIZE
        (heapBubbleDown (Function.update cache k e) k) ∧
      (entries TAG_CACHE_SIZE (heapBubbleDown (Function.update cache k e) k)).Perm
        ((entries TAG_CACHE_SIZE cache).set k e) := by
  rw [← entries_update]
  refine bubbleLoop_spec _ (by omega) hk (fun i hi j hj heq => ?_) (fun i hi hne => ?_)
    (hord.raise hk fun hpos => hnew _ (by omega))
  · by_cases hik : i = k <;> by_cases hjk : j = k
    · rw [hik, hjk]
    · rw [hik, Function.update_self, Function.update_of_ne hjk] at heq
      exact absurd heq (hnew j hj).ne'
    · rw [hjk, Function.update_self, Function.update_of_ne hik] at heq
      exact absurd heq (hnew i hi).ne
    · rw [Function.update_of_ne hik, Function.update_of_ne hjk] at heq
      exact hdist i hi j hj heq
  · rw [Function.update_self, Function.update_of_ne hne]
    exact hnew i hi

/-! ### The cache by use -/

/-- The cache holds the entries `es`, from the least to the most recently used one. -/
structure Cached (s : LogState) (es : List CachedTagEntry) : Prop where
  size : s.entryCount ≤ TAG_CACHE_SIZE
  ordered : Ordered CachedTagEntry.generation s.entryCount s.cache
  perm : (entries s.entryCount s.cache).Perm es
  sorted : es.Pairwise fun e e' => e.generation < e'.generation
  fresh : ∀ e ∈ es, e.generation < s.maxGeneration
  nodup : (es.map CachedTagEntry.tag).Nodup

section Cached

variable {es : List CachedTagEntry}

theorem cached_init : Cached init [] where
  size := by decide
  ordered := fun _ _ h => absurd h (Nat.not_lt_zero _)
  perm := List.Perm.refl _
  sorted := List.Pairwise.nil
  fresh := fun _ h => absurd h List.not_mem_nil
  nodup := List.nodup_nil

theorem Cached.length (h : Cached s es) : es.length = s.entryCount := by
  rw [← h.perm.length_eq, length_entries]

theorem Cached.mem (h : Cached s es) {i : ℕ} (hi : i < s.entryCount) : s.cache i ∈ es :=
  h.perm.mem_iff.mp (mem_entries.mpr ⟨i, hi, rfl⟩)

theorem Cached.index (h : Cached s es) {e : CachedTagEntry} (he : e ∈ es) :
    ∃ i < s.entryCount, s.cache i = e :=
  mem_entries.mp (h.perm.mem_iff.mpr he)

/-- What tells the entries of `es` apart tells the indices apart. -/
theorem Cached.inj (h : Cached s es) {f : CachedTagEntry → ℕ} (hf : (es.map f).Nodup) :
    ∀ i < s.entryCount, ∀ j < s.entryCount, f (s.cache i) = f (s.cache j) → i = j := by
  intro i hi j hj heq
  have hnodup : ((List.range s.entryCount).map fun i => f (s.cache i)).Nodup := by
    have := (h.perm.map f).nodup_iff.mpr hf
    rwa [entries, List.map_map] at this
  exact List.inj_on_of_nodup_map hnodup (List.mem_range.mpr hi) (List.mem_range.mpr hj) heq

theorem Cached.distinct (h : Cached s es) : Distinct s.entryCount s.cache :=
  h.inj (List.pairwise_map.mpr (h.sorted.imp fun hlt => hlt.ne))

/-- An entry is used: it goes to the end with the next generation. -/
theorem Cached.use {cache : ℕ → CachedTagEntry} {n : ℕ} {rest : List CachedTagEntry}
    {x : CachedTagEntry} (h : Cached s es) (hgen : s.maxGeneration < 2 ^ 29)
    (hrest : rest.Sublist es) (hx : x.generation = s.generation)
    (htag : x.tag ∉ rest.map CachedTagEntry.tag) (hn : n ≤ TAG_CACHE_SIZE)
    (hord : Ordered CachedTagEntry.generation n cache)
    (hperm : (entries n cache).Perm (rest ++ [x])) :
    Cached { s with cache := cache, maxGeneration := s.nextGeneration, entryCount := n }
      (rest ++ [x]) := by
  have hgx : x.generation = s.maxGeneration := hx.trans (Nat.mod_eq_of_lt hgen)
  have hnext : s.nextGeneration = s.maxGeneration + 1 := Nat.mod_eq_of_lt (by omega)
  refine ⟨hn, hord, hperm, ?_, fun e he => ?_, ?_⟩
  · refine List.pairwise_append.mpr ⟨h.sorted.sublist hrest, List.pairwise_singleton _ _, ?_⟩
    intro e he y hy
    rw [List.mem_singleton.mp hy, hgx]
    exact h.fresh e (hrest.subset he)
  · show e.generation < s.nextGeneration
    rw [hnext]
    rcases List.mem_append.mp he with he | he
    · have := h.fresh e (hrest.subset he)
      omega
    · rw [List.mem_singleton.mp he]
      omega
  · rw [List.map_append, List.map_singleton]
    refine List.Nodup.append (h.nodup.sublist (hrest.map _)) (List.nodup_singleton _) ?_
    rintro t ht ht'
    rw [List.mem_singleton.mp ht'] at ht
    exact htag ht

/-- The entries but the one with the tag of the entry at `i`. -/
theorem Cached.perm_filter (h : Cached s es) {i : ℕ} (hi : i < s.entryCount) :
    es.Perm (s.cache i :: es.filter fun e => e.tag ≠ (s.cache i).tag) := by
  have hes : es.Nodup := List.Nodup.of_map _ h.nodup
  refine (List.perm_cons_erase (h.mem hi)).trans (List.Perm.cons _ ?_)
  rw [hes.erase_eq_filter]
  refine List.Perm.of_eq (List.filter_congr fun e he => ?_)
  have hiff : e = s.cache i ↔ e.tag = (s.cache i).tag :=
    ⟨fun heq => by rw [heq], fun heq => List.inj_on_of_nodup_map h.nodup he (h.mem hi) heq⟩
  rw [Bool.eq_iff_iff, bne_iff_ne, decide_eq_true_iff]
  exact not_congr hiff

/-- The entry at `i` is replaced. -/
theorem entries_set_perm {n i : ℕ} {x : CachedTagEntry} {rest : List CachedTagEntry} (hi : i < n)
    (h : (entries n cache).Perm (cache i :: rest)) :
    ((entries n cache).set i x).Perm (rest ++ [x]) := by
  have hlen : i < (entries n cache).length := by rwa [length_entries]
  have hat : (entries n cache)[i] = cache i := by simp [entries]
  have herase : ((entries n cache).eraseIdx i).Perm rest := by
    refine List.Perm.cons_inv (a := cache i) ?_
    rw [← hat]
    exact (List.getElem_cons_eraseIdx_perm hlen).trans (hat ▸ h)
  exact (List.set_perm_cons_eraseIdx hlen x).trans
    ((herase.cons x).trans (List.perm_append_singleton x rest).symm)

/-! ### Looking up -/

/-- The search, in a heap. -/
theorem findEntry_cases (hord : Ordered CachedTagEntry.generation s.entryCount s.cache)
    (p : CachedTagEntry → Bool) (fuel : ℕ) {i : ℕ} (hi : i + fuel = s.entryCount) :
    (∃ j < s.entryCount, p (s.cache j) = true ∧ s.findEntry p fuel i = some (some j)) ∨
      s.findEntry p fuel i = some none ∧ ∀ j, i ≤ j → j < s.entryCount → p (s.cache j) = false := by
  induction fuel generalizing i with
  | zero => exact Or.inr ⟨rfl, fun j hij hj => by omega⟩
  | succ fuel ih =>
    have hcheck : i = 0 ∨ (s.cache ((i - 1) / 2)).generation < (s.cache i).generation := by
      rcases Nat.eq_zero_or_pos i with h0 | hpos
      · exact Or.inl h0
      · exact Or.inr (hord i hpos (by omega))
    rw [findEntry, if_pos hcheck]
    by_cases hp : p (s.cache i) = true
    · rw [if_pos hp]
      exact Or.inl ⟨i, by omega, hp, rfl⟩
    · rw [if_neg hp]
      refine (ih (by omega)).imp_right fun ⟨hnone, hall⟩ => ⟨hnone, fun j hij hj => ?_⟩
      rcases Nat.eq_or_lt_of_le hij with rfl | hlt
      · exact Bool.not_eq_true _ ▸ hp
      · exact hall j hlt hj

/-- The tags of an LRU cache once one is looked up.  As long as the cache is not full, a tag that
is found stays where it is. -/
def lruLookup (lru : List ℕ) (tag : ℕ) : List ℕ :=
  if tag ∈ lru then
    if lru.length = TAG_CACHE_SIZE then lru.filter (· ≠ tag) ++ [tag] else lru
  else if lru.length < TAG_CACHE_SIZE then lru ++ [tag]
  else lru.tail ++ [tag]

theorem map_tag_filter (es : List CachedTagEntry) (tag : ℕ) :
    (es.filter fun e => e.tag ≠ tag).map CachedTagEntry.tag =
      (es.map CachedTagEntry.tag).filter (· ≠ tag) := by
  rw [List.filter_map]
  rfl

/-- What a lookup leaves: the entries are those of before, but for the new one. -/
structure LookedUp (s : LogState) (es : List CachedTagEntry) (tag : ℕ) (level : EspLogLevel)
    (s' : LogState) (es' : List CachedTagEntry) : Prop where
  cached : Cached s' es'
  tags : s'.tags = s.tags
  default : s'.defaultLevel = s.defaultLevel
  generations : s'.maxGeneration ≤ s.maxGeneration + 1
  lru : es'.map CachedTagEntry.tag = lruLookup (es.map CachedTagEntry.tag) tag
  levels : ∀ e' ∈ es', (∃ e ∈ es, e.tag = e'.tag ∧ e.level = e'.level) ∨
    e'.tag = tag ∧ e'.level = level

theorem Cached.useEntry (h : Cached s es) (hgen : s.maxGeneration < 2 ^ 29) {i : ℕ}
    (hi : i < s.entryCount) :
    ∃ es', LookedUp s es (s.cache i).tag (s.cache i).level (s.useEntry i).2 es' := by
  have hmem : (s.cache i).tag ∈ es.map CachedTagEntry.tag := List.mem_map_of_mem (h.mem hi)
  have hlen : (es.map CachedTagEntry.tag).length = s.entryCount := by
    rw [List.length_map, h.length]
  unfold LogState.useEntry
  by_cases hfull : s.entryCount = TAG_CACHE_SIZE
  · -- a full heap: the entry bubbles down with the new generation
    rw [if_pos hfull]
    obtain ⟨hord, hperm⟩ := heapBubbleDown_spec (k := i)
      (e := { s.cache i with generation := s.generation }) (hfull ▸ hi) (hfull ▸ h.distinct)
      (hfull ▸ h.ordered) fun j hj => by
        show _ < s.generation
        rw [LogState.generation, Nat.mod_eq_of_lt hgen]
        exact h.fresh _ (h.mem (hfull ▸ hj))
    have hused := h.use (n := s.entryCount) (x := { s.cache i with generation := s.generation })
      hgen List.filter_sublist rfl (by
        rw [map_tag_filter]
        exact fun hin => by simpa using (List.mem_filter.mp hin).2) h.size (hfull ▸ hord)
      ((hfull ▸ hperm).trans (entries_set_perm hi (h.perm.trans (h.perm_filter hi))))
    refine ⟨_, hused, rfl, rfl, ?_, ?_, fun e' he' => ?_⟩
    · exact (Nat.mod_le _ _)
    · rw [lruLookup, if_pos hmem, if_pos (hlen.trans hfull), List.map_append, map_tag_filter]
      rfl
    · rcases List.mem_append.mp he' with he' | he'
      · exact Or.inl ⟨e', (List.mem_filter.mp he').1, rfl, rfl⟩
      · rw [List.mem_singleton.mp he']
        exact Or.inr ⟨rfl, rfl⟩
  · rw [if_neg hfull]
    refine ⟨es, h, rfl, rfl, Nat.le_succ _, ?_, fun e' he' => Or.inl ⟨e', he', rfl, rfl⟩⟩
    rw [lruLookup, if_pos hmem, if_neg (hlen ▸ hfull)]

/-- The root of a full heap is the entry that was used least recently. -/
theorem Cached.eq_root (h : Cached s es) (hpos : 0 < s.entryCount) :
    es = s.cache 0 :: es.tail := by
  cases es with
  | nil => exact absurd h.length (by simp; omega)
  | cons e es =>
    obtain ⟨i, hi, rfl⟩ := h.index List.mem_cons_self
    congr 1
    rcases List.mem_cons.mp (h.mem hpos) with heq | hin
    · exact heq.symm
    · have hlt := List.rel_of_pairwise_cons h.sorted hin
      exact absurd (h.ordered.root_le i hi) (not_le.mpr hlt)

theorem Cached.addToCache (h : Cached s es) (hgen : s.maxGeneration < 2 ^ 29) {tag : ℕ}
    (htag : tag ∉ es.map CachedTagEntry.tag) (level : EspLogLevel) :
    ∃ es', LookedUp s es tag level (s.addToCache tag level) es' := by
  have hlen : (es.map CachedTagEntry.tag).length = s.entryCount := by
    rw [List.length_map, h.length]
  have hnew : ∀ i < s.entryCount, (s.cache i).generation < s.generation := fun i hi => by
    rw [LogState.generation, Nat.mod_eq_of_lt hgen]
    exact h.fresh _ (h.mem hi)
  have hlevels : ∀ rest : List CachedTagEntry, rest.Sublist es →
      ∀ e' ∈ rest ++ [⟨tag, level, s.generation⟩],
        (∃ e ∈ es, e.tag = e'.tag ∧ e.level = e'.level) ∨ e'.tag = tag ∧ e'.level = level := by
    intro rest hrest e' he'
    rcases List.mem_append.mp he' with he' | he'
    · exact Or.inl ⟨e', hrest.subset he', rfl, rfl⟩
    · rw [List.mem_singleton.mp he']
      exact Or.inr ⟨rfl, rfl⟩
  unfold LogState.addToCache
  by_cases hroom : s.entryCount < TAG_CACHE_SIZE
  · -- the entry is appended, which is the youngest
    simp only [if_pos hroom]
    have hord : Ordered CachedTagEntry.generation (s.entryCount + 1)
        (Function.update s.cache s.entryCount ⟨tag, level, s.generation⟩) := fun i hpos hi => by
      rw [Function.update_of_ne (by omega)]
      by_cases hin : i = s.entryCount
      · subst hin
        rw [Function.update_self]
        exact hnew _ (by omega)
      · rw [Function.update_of_ne hin]
        exact h.ordered i hpos (by omega)
    have hused := h.use (x := ⟨tag, level, s.generation⟩) hgen (List.Sublist.refl es) rfl htag
      hroom hord (entries_succ ▸ h.perm.append_right _)
    refine ⟨_, hused, rfl, rfl, Nat.mod_le _ _, ?_, hlevels es (List.Sublist.refl es)⟩
    rw [lruLookup, if_neg htag, if_pos (hlen ▸ hroom), List.map_append]
    rfl
  · -- the root is the oldest one, and is replaced
    simp only [if_neg hroom]
    have hfull : s.entryCount = TAG_CACHE_SIZE := le_antisymm h.size (not_lt.mp hroom)
    have hpos : 0 < s.entryCount := hfull ▸ Nat.succ_pos 30
    obtain ⟨hord, hperm⟩ := heapBubbleDown_spec (k := 0) (e := ⟨tag, level, s.generation⟩)
      (hfull ▸ hpos) (hfull ▸ h.distinct) (hfull ▸ h.ordered) fun j hj => hnew j (hfull ▸ hj)
    have hused := h.use (n := s.entryCount) (x := ⟨tag, level, s.generation⟩) hgen
      (List.tail_sublist es) rfl
      (fun hin => htag (((List.tail_sublist es).map _).subset hin)) h.size
      (hfull ▸ hord)
      ((hfull ▸ hperm).trans (entries_set_perm hpos
        (h.perm.trans (List.Perm.of_eq (h.eq_root hpos)))))
    refine ⟨_, hused, rfl, rfl, Nat.mod_le _ _, ?_, hlevels _ (List.tail_sublist es)⟩
    rw [lruLookup, if_neg htag, if_neg (hlen ▸ hroom), List.map_append, List.map_tail]
    rfl

variable (text) in
/-- `esp_log_level_get`. -/
theorem Cached.espLogLevelGet (h : Cached s es) (hgen : s.maxGeneration < 2 ^ 29) (tag : ℕ) :
    ∃ level s' es', s.espLogLevelGet text tag = some (level, s') ∧ LookedUp s es tag level s' es' ∧
      ((∃ e ∈ es, e.tag = tag ∧ e.level = level) ∨
        level = (s.getUncachedLogLevel (text tag)).getD s.defaultLevel) := by
  unfold LogState.espLogLevelGet getCachedLogLevel
  obtain ⟨i, hi, htag, hfound⟩ | ⟨hnone, hall⟩ :=
    findEntry_cases h.ordered (fun e => e.tag = tag) s.entryCount (Nat.zero_add _)
  · obtain ⟨es', hused⟩ := h.useEntry hgen hi
    rw [decide_eq_true_iff] at htag
    rw [htag] at hused
    rw [hfound]
    exact ⟨_, _, es', rfl, hused, Or.inl ⟨_, h.mem hi, htag, rfl⟩⟩
  · have hnot : tag ∉ es.map CachedTagEntry.tag := fun hin => by
      obtain ⟨e, he, heq⟩ := List.mem_map.mp hin
      obtain ⟨i, hi, rfl⟩ := h.index he
      exact absurd (hall i (Nat.zero_le _) hi) (by simp [heq])
    obtain ⟨es', hadded⟩ := h.addToCache hgen hnot
      ((s.getUncachedLogLevel (text tag)).getD s.defaultLevel)
    rw [hnone]
    exact ⟨_, _, es', rfl, hadded, Or.inr rfl⟩

/-! ### Setting a level -/

theorem setTag_cases (tag : List UInt8) (level : EspLogLevel)
    (tags : List (List UInt8 × EspLogLevel)) :
    (setTag tag level tags = none ∧ tags.find? (fun it => it.1 = tag) = none) ∨
      ∃ tags', setTag tag level tags = some tags' ∧ tags.find? (fun it => it.1 = tag) ≠ none ∧
        ∀ t, (tags'.find? fun it => it.1 = t).map Prod.snd =
          if t = tag then some level else (tags.find? fun it => it.1 = t).map Prod.snd := by
  induction tags with
  | nil => exact Or.inl ⟨rfl, rfl⟩
  | cons it tags ih =>
    rw [setTag]
    by_cases hit : it.1 = tag
    · rw [if_pos hit]
      refine Or.inr ⟨_, rfl, by simp [hit], fun t => ?_⟩
      by_cases ht : t = tag
      · rw [if_pos ht, List.find?_cons_of_pos (by simp [hit, ht])]
        rfl
      · have hne : ¬it.1 = t := fun heq => ht (heq ▸ hit)
        rw [if_neg ht, List.find?_cons_of_neg (by simpa using hne),
          List.find?_cons_of_neg (by simpa using hne)]
    · rw [if_neg hit]
      obtain ⟨hset, hfind⟩ | ⟨tags', hset, hfind, hlook⟩ := ih
      · rw [hset]
        exact Or.inl ⟨rfl, by rw [List.find?_cons_of_neg (by simpa using hit), hfind]⟩
      · rw [hset]
        refine Or.inr ⟨_, rfl, by rwa [List.find?_cons_of_neg (by simpa using hit)], fun t => ?_⟩
        by_cases ht : it.1 = t
        · rw [List.find?_cons_of_pos (by simpa using ht),
            List.find?_cons_of_pos (by simpa using ht), if_neg (fun heq => hit (ht.trans heq))]
        · rw [List.find?_cons_of_neg (by simpa using ht),
            List.find?_cons_of_neg (by simpa using ht)]
          exact hlook t

/-- What setting a level leaves of the cache.  An entry with the tag that keeps its level is not
the only one with this text. -/
structure LevelSet (text : ℕ → List UInt8) (s : LogState) (es : List CachedTagEntry)
    (tag : List UInt8) (level : EspLogLevel) (s' : LogState) (es' : List CachedTagEntry) :
    Prop where
  cached : Cached s' es'
  tags : s'.tags = s.tags
  default : s'.defaultLevel = s.defaultLevel
  generations : s'.maxGeneration = s.maxGeneration
  same : es'.map CachedTagEntry.tag = es.map CachedTagEntry.tag
  levels : ∀ e' ∈ es', text e'.tag = tag ∧ e'.level = level ∨
    e' ∈ es ∧ (text e'.tag = tag → ∃ e ∈ es, e.tag ≠ e'.tag ∧ text e.tag = tag)

/-- The entry with tag `tag` gets the level. -/
def relevel (tag : ℕ) (level : EspLogLevel) (e : CachedTagEntry) : CachedTagEntry :=
  if e.tag = tag then { e with level } else e

theorem relevel_tag (tag : ℕ) (level : EspLogLevel) (e : CachedTagEntry) :
    (relevel tag level e).tag = e.tag := by
  unfold relevel
  split_ifs <;> rfl

theorem relevel_generation (tag : ℕ) (level : EspLogLevel) (e : CachedTagEntry) :
    (relevel tag level e).generation = e.generation := by
  unfold relevel
  split_ifs <;> rfl

theorem map_relevel_tag (tag : ℕ) (level : EspLogLevel) (es : List CachedTagEntry) :
    (es.map (relevel tag level)).map CachedTagEntry.tag = es.map CachedTagEntry.tag := by
  rw [List.map_map]
  exact List.map_congr_left fun e _ => relevel_tag tag level e

theorem Cached.relevel (h : Cached s es) {i : ℕ} (hi : i < s.entryCount) (level : EspLogLevel) :
    Cached { s with cache := Function.update s.cache i { s.cache i with level } }
      (es.map (relevel (s.cache i).tag level)) := by
  -- no other entry has the tag, as no tag is cached twice
  have hat : ∀ j < s.entryCount, Function.update s.cache i { s.cache i with level } j =
      LogState.relevel (s.cache i).tag level (s.cache j) := by
    intro j hj
    unfold LogState.relevel
    by_cases hji : j = i
    · subst hji
      rw [Function.update_self, if_pos rfl]
    · rw [Function.update_of_ne hji, if_neg fun heq => hji (h.inj h.nodup j hj i hi heq)]
  have hgen : ∀ j < s.entryCount,
      (Function.update s.cache i { s.cache i with level } j).generation =
        (s.cache j).generation := fun j hj => by
    rw [hat j hj, relevel_generation]
  refine ⟨h.size, fun j hpos hj => ?_, ?_, ?_, fun e' he' => ?_, ?_⟩
  · show (Function.update s.cache i { s.cache i with level } ((j - 1) / 2)).generation <
      (Function.update s.cache i { s.cache i with level } j).generation
    have hj' : j < s.entryCount := hj
    rw [hgen j hj', hgen _ (by omega)]
    exact h.ordered j hpos hj'
  · have hmap : entries s.entryCount (Function.update s.cache i { s.cache i with level }) =
        (entries s.entryCount s.cache).map (LogState.relevel (s.cache i).tag level) := by
      unfold entries
      rw [List.map_map]
      exact List.map_congr_left fun j hj => hat j (List.mem_range.mp hj)
    show (entries s.entryCount _).Perm _
    rw [hmap]
    exact h.perm.map _
  · refine List.pairwise_map.mpr (h.sorted.imp fun {e e'} hlt => ?_)
    rwa [relevel_generation, relevel_generation]
  · obtain ⟨e, he, rfl⟩ := List.mem_map.mp he'
    rw [relevel_generation]
    exact h.fresh e he
  · rw [map_relevel_tag]
    exact h.nodup

variable (text) in
theorem Cached.setCached (h : Cached s es) (tag : List UInt8) (level : EspLogLevel) :
    ∃ s' es', s.setCached text tag level = some s' ∧ LevelSet text s es tag level s' es' := by
  unfold LogState.setCached
  obtain ⟨i, hi, htag, hfound⟩ | ⟨hnone, hall⟩ :=
    findEntry_cases h.ordered (fun e => text e.tag = tag) s.entryCount (Nat.zero_add _)
  · rw [decide_eq_true_iff] at htag
    rw [hfound]
    refine ⟨_, _, rfl, h.relevel hi level, rfl, rfl, rfl, map_relevel_tag _ _ _, fun e' he' => ?_⟩
    obtain ⟨e, he, rfl⟩ := List.mem_map.mp he'
    unfold LogState.relevel
    split_ifs with heq
    · exact Or.inl ⟨show text e.tag = tag by rw [heq, htag], rfl⟩
    · exact Or.inr ⟨he, fun _ => ⟨_, h.mem hi, Ne.symm heq, htag⟩⟩
  · rw [hnone]
    refine ⟨s, es, rfl, h, rfl, rfl, rfl, rfl, fun e' he' => Or.inr ⟨he', fun heq => ?_⟩⟩
    obtain ⟨j, hj, rfl⟩ := h.index he'
    exact absurd (hall j (Nat.zero_le _) hj) (by simp [heq])

end Cached

end LogState

/-! ### What the functions are for -/

/-- The levels that were set since all of them were last. -/
structure LogLevels where
  default : EspLogLevel
  known : List UInt8 → Option EspLogLevel

namespace LogLevels

def init : LogLevels where
  default := .info
  known := fun _ => none

def level (lv : LogLevels) (tag : List UInt8) : EspLogLevel := (lv.known tag).getD lv.default

/-- A level is set; a tag that is not known needs memory. -/
def set (lv : LogLevels) (tag : List UInt8) (level : EspLogLevel) (allocated : Bool) : LogLevels :=
  if tag = LogState.wildcard then { default := level, known := fun _ => none }
  else if lv.known tag = none ∧ allocated = false then lv
  else { lv with known := Function.update lv.known tag (some level) }

def call (text : ℕ → List UInt8) (lv : LogLevels) : LogCall → LogAnswer × LogLevels
  | .set tag level allocated => (.done, lv.set tag level allocated)
  | .get tag => (.level (lv.level (text tag)), lv)
  | .write level tag => (.printed (shouldOutput level (lv.level (text tag))), lv)

def calls (text : ℕ → List UInt8) : LogLevels → List LogCall → List LogAnswer
  | _, [] => []
  | lv, c :: cs => (lv.call text c).1 :: calls text (lv.call text c).2 cs

end LogLevels

namespace LogCall

/-- The lookups since the cache was cleared, once the call is over. -/
def lookups (n : ℕ) : LogCall → ℕ
  | set tag _ _ => if tag = LogState.wildcard then 0 else n
  | get _ | write _ _ => n + 1

/-- The tags of the LRU cache, once the call is over. -/
def lru (lru : List ℕ) : LogCall → List ℕ
  | set tag _ _ => if tag = LogState.wildcard then [] else lru
  | get tag | write _ tag => LogState.lruLookup lru tag

end LogCall

/-- The generations do not run over: after `n` lookups there are never more than `2 ^ 29` until the
cache is cleared. -/
def GenerationsFit : ℕ → List LogCall → Prop
  | _, [] => True
  | n, c :: cs => c.lookups n ≤ 2 ^ 29 ∧ GenerationsFit (c.lookups n) cs

instance : ∀ (n : ℕ) (cs : List LogCall), Decidable (GenerationsFit n cs)
  | _, [] => isTrue trivial
  | n, c :: cs =>
    have := instDecidableGenerationsFit (c.lookups n) cs
    inferInstanceAs (Decidable (_ ∧ _))

/-- Two tags with the same text are the same pointer; `"*"` is no tag. -/
def Unaliased (text : ℕ → List UInt8) : Prop :=
  ∀ p q, text p = text q → text p = LogState.wildcard ∨ p = q

namespace LogState

variable {text : ℕ → List UInt8} {s s' : LogState} {es es' : List CachedTagEntry} {lv : LogLevels}

/-- The list holds the levels that were set, and the cache agrees with it. -/
structure Holds (text : ℕ → List UInt8) (s : LogState) (es : List CachedTagEntry)
    (lv : LogLevels) : Prop where
  default : lv.default = s.defaultLevel
  known : ∀ t, lv.known t = s.getUncachedLogLevel t
  cached : ∀ e ∈ es, e.level = lv.level (text e.tag)

theorem holds_init : Holds text init [] LogLevels.init where
  default := rfl
  known := fun _ => rfl
  cached := fun _ h => absurd h List.not_mem_nil

theorem getUncachedLogLevel_congr (h : s'.tags = s.tags) (t : List UInt8) :
    s'.getUncachedLogLevel t = s.getUncachedLogLevel t := by
  unfold getUncachedLogLevel
  rw [h]

theorem Holds.level (h : Holds text s es lv) {tag : ℕ} {level : EspLogLevel}
    (hl : (∃ e ∈ es, e.tag = tag ∧ e.level = level) ∨
      level = (s.getUncachedLogLevel (text tag)).getD s.defaultLevel) :
    level = lv.level (text tag) := by
  obtain ⟨e, he, rfl, rfl⟩ | rfl := hl
  · exact h.cached e he
  · rw [LogLevels.level, h.known, h.default]

theorem Holds.lookedUp (h : Holds text s es lv) {tag : ℕ}
    (hl : LookedUp s es tag (lv.level (text tag)) s' es') : Holds text s' es' lv where
  default := h.default.trans hl.default.symm
  known := fun t => (h.known t).trans (getUncachedLogLevel_congr hl.tags t).symm
  cached := fun e' he' => by
    obtain ⟨e, he, htag, hlevel⟩ | ⟨htag, hlevel⟩ := hl.levels e' he'
    · rw [← htag, ← hlevel]
      exact h.cached e he
    · rw [htag, hlevel]

/-- The list has got the level for the tag, and the cache gets it. -/
theorem Holds.levelSet {tag : List UInt8} {level : EspLogLevel} (halias : Unaliased text)
    (h : Holds text s es lv) (htag : tag ≠ wildcard) {t : LogState}
    (hl : LevelSet text t es tag level s' es') (hdefault : t.defaultLevel = s.defaultLevel)
    (hknown : ∀ u, t.getUncachedLogLevel u =
      if u = tag then some level else s.getUncachedLogLevel u) :
    Holds text s' es' { lv with known := Function.update lv.known tag (some level) } where
  default := h.default.trans (hdefault.symm.trans hl.default.symm)
  known := fun u => by
    rw [getUncachedLogLevel_congr hl.tags, hknown]
    by_cases hu : u = tag
    · rw [if_pos hu]
      show Function.update lv.known tag (some level) u = _
      rw [hu, Function.update_self]
    · rw [if_neg hu]
      show Function.update lv.known tag (some level) u = _
      rw [Function.update_of_ne hu, h.known]
  cached := fun e' he' => by
    obtain ⟨htext, hlevel⟩ | ⟨hin, hsame⟩ := hl.levels e' he'
    · rw [hlevel, htext, LogLevels.level]
      show level = (Function.update lv.known tag (some level) tag).getD _
      rw [Function.update_self]
      rfl
    · have hne : text e'.tag ≠ tag := fun heq => by
        obtain ⟨e, -, hdiff, htext⟩ := hsame heq
        obtain hw | hpq := halias e.tag e'.tag (htext.trans heq.symm)
        · exact htag (htext.symm.trans hw)
        · exact hdiff hpq
      rw [h.cached e' hin, LogLevels.level, LogLevels.level]
      show _ = (Function.update lv.known tag (some level) (text e'.tag)).getD _
      rw [Function.update_of_ne hne]

/-- What a call does, and what it answers. -/
structure Called (text : ℕ → List UInt8) (s : LogState) (es : List CachedTagEntry) (c : LogCall)
    (r : LogAnswer × LogState) (es' : List CachedTagEntry) : Prop where
  cached : Cached r.2 es'
  lru : es'.map CachedTagEntry.tag = c.lru (es.map CachedTagEntry.tag)
  generations : r.2.maxGeneration ≤ c.lookups s.maxGeneration
  answers : Unaliased text → ∀ lv, Holds text s es lv →
    r.1 = (lv.call text c).1 ∧ Holds text r.2 es' (lv.call text c).2

variable (text) in
theorem Cached.lookup (h : Cached s es) (hgen : s.maxGeneration < 2 ^ 29) (tag : ℕ) :
    ∃ level s' es', s.espLogLevelGet text tag = some (level, s') ∧ Cached s' es' ∧
      es'.map CachedTagEntry.tag = lruLookup (es.map CachedTagEntry.tag) tag ∧
      s'.maxGeneration ≤ s.maxGeneration + 1 ∧
      ∀ lv, Holds text s es lv → level = lv.level (text tag) ∧ Holds text s' es' lv := by
  obtain ⟨level, s', es', hget, hl, hlevel⟩ := h.espLogLevelGet text hgen tag
  refine ⟨level, s', es', hget, hl.cached, hl.lru, hl.generations, fun lv hh => ?_⟩
  obtain rfl := hh.level hlevel
  exact ⟨rfl, hh.lookedUp hl⟩

theorem Cached.clear (s : LogState) : Cached s.clearLogLevelList [] where
  size := Nat.zero_le _
  ordered := fun _ _ h => absurd h (Nat.not_lt_zero _)
  perm := List.Perm.refl _
  sorted := List.Pairwise.nil
  fresh := fun _ h => absurd h List.not_mem_nil
  nodup := List.nodup_nil

variable (text) in
theorem Cached.espLogLevelSet (h : Cached s es) {tag : List UInt8} (htag : tag ≠ wildcard)
    (level : EspLogLevel) (allocated : Bool) :
    ∃ s' es', s.espLogLevelSet text tag level allocated = some s' ∧ Cached s' es' ∧
      es'.map CachedTagEntry.tag = es.map CachedTagEntry.tag ∧
      s'.maxGeneration = s.maxGeneration ∧
      (Unaliased text → ∀ lv, Holds text s es lv →
        Holds text s' es' (lv.set tag level allocated)) := by
  unfold LogState.espLogLevelSet
  rw [if_neg htag]
  obtain ⟨hset, hfind⟩ | ⟨tags', hset, hfind, hlook⟩ := setTag_cases tag level s.tags
  · rw [hset]
    cases allocated with
    | false =>
      -- a tag that is not in the list, and no memory for it: nothing is set
      refine ⟨s, es, rfl, h, rfl, rfl, fun _ lv hh => ?_⟩
      have hnone : lv.known tag = none := by
        rw [hh.known, getUncachedLogLevel, hfind]
        rfl
      rwa [LogLevels.set, if_neg htag, if_pos ⟨hnone, rfl⟩]
    | true =>
      have ht : Cached { s with tags := (tag, level) :: s.tags } es :=
        ⟨h.size, h.ordered, h.perm, h.sorted, h.fresh, h.nodup⟩
      obtain ⟨s', es', hs', hl⟩ := ht.setCached text tag level
      refine ⟨s', es', hs', hl.cached, hl.same, hl.generations, fun halias lv hh => ?_⟩
      rw [LogLevels.set, if_neg htag, if_neg fun hn => absurd hn.2 (by decide)]
      refine hh.levelSet halias htag hl rfl fun u => ?_
      unfold getUncachedLogLevel
      by_cases hu : u = tag
      · rw [if_pos hu, List.find?_cons_of_pos (by simp [hu])]
        rfl
      · rw [if_neg hu, List.find?_cons_of_neg (by simpa using Ne.symm hu)]
  · rw [hset]
    have ht : Cached { s with tags := tags' } es :=
      ⟨h.size, h.ordered, h.perm, h.sorted, h.fresh, h.nodup⟩
    obtain ⟨s', es', hs', hl⟩ := ht.setCached text tag level
    refine ⟨s', es', hs', hl.cached, hl.same, hl.generations, fun halias lv hh => ?_⟩
    have hsome : lv.known tag ≠ none := by
      rw [hh.known, getUncachedLogLevel]
      exact fun hn => hfind (Option.map_eq_none_iff.mp hn)
    rw [LogLevels.set, if_neg htag, if_neg fun hn => hsome hn.1]
    exact hh.levelSet halias htag hl rfl hlook

variable (text) in
/-- **One call.** -/
theorem Cached.call (h : Cached s es) (c : LogCall)
    (hgen : c.lookups s.maxGeneration ≤ 2 ^ 29) :
    ∃ r es', s.call text c = some r ∧ Called text s es c r es' := by
  cases c with
  | set tag level allocated =>
    by_cases htag : tag = wildcard
    · refine ⟨(.done, { s with defaultLevel := level }.clearLogLevelList), [], ?_,
        Cached.clear _, ?_, Nat.zero_le _, fun _ lv hh => ⟨rfl, ?_⟩⟩
      · rw [LogState.call, LogState.espLogLevelSet, if_pos htag]
        rfl
      · rw [LogCall.lru, if_pos htag]
        rfl
      · rw [LogLevels.call, LogLevels.set, if_pos htag]
        exact ⟨rfl, fun _ => rfl, fun _ hin => absurd hin List.not_mem_nil⟩
    · obtain ⟨s', es', hs', hc, hsame, hmax, hholds⟩ :=
        h.espLogLevelSet text htag level allocated
      refine ⟨(.done, s'), es', by rw [LogState.call, hs']; rfl, hc, ?_, ?_,
        fun halias lv hh => ⟨rfl, hholds halias lv hh⟩⟩
      · rw [hsame, LogCall.lru, if_neg htag]
      · rw [LogCall.lookups, if_neg htag]
        exact hmax.le
  | get tag =>
    obtain ⟨level, s', es', hget, hc, hlru, hmax, hholds⟩ :=
      h.lookup text (Nat.lt_of_succ_le hgen) tag
    refine ⟨(.level level, s'), es', by rw [LogState.call, hget]; rfl, hc, hlru, hmax,
      fun _ lv hh => ?_⟩
    obtain ⟨rfl, hh'⟩ := hholds lv hh
    exact ⟨rfl, hh'⟩
  | write level tag =>
    obtain ⟨levelForTag, s', es', hget, hc, hlru, hmax, hholds⟩ :=
      h.lookup text (Nat.lt_of_succ_le hgen) tag
    refine ⟨(.printed (shouldOutput level levelForTag), s'), es',
      by rw [LogState.call, hget]; rfl, hc, hlru, hmax, fun _ lv hh => ?_⟩
    obtain ⟨rfl, hh'⟩ := hholds lv hh
    exact ⟨rfl, hh'⟩

theorem lookups_mono (c : LogCall) {m n : ℕ} (h : m ≤ n) : c.lookups m ≤ c.lookups n := by
  cases c with
  | set tag level allocated =>
    show (if tag = wildcard then 0 else m) ≤ if tag = wildcard then 0 else n
    split_ifs
    · exact le_refl _
    · exact h
  | get tag => exact Nat.succ_le_succ h
  | write level tag => exact Nat.succ_le_succ h

variable (text) in
/-- **A run**, by induction on the calls. -/
theorem Cached.calls (cs : List LogCall) {s : LogState} {es : List CachedTagEntry} {n : ℕ}
    (h : Cached s es) (hn : s.maxGeneration ≤ n) (hfit : GenerationsFit n cs) :
    ∃ as s' es', s.calls text cs = some (as, s') ∧ Cached s' es' ∧
      es'.map CachedTagEntry.tag = cs.foldl LogCall.lru (es.map CachedTagEntry.tag) ∧
      (Unaliased text → ∀ lv, Holds text s es lv → as = lv.calls text cs) := by
  induction cs generalizing s es n with
  | nil => exact ⟨[], s, es, rfl, h, rfl, fun _ _ _ => rfl⟩
  | cons c cs ih =>
    obtain ⟨hfirst, hrest⟩ := hfit
    obtain ⟨⟨a, t⟩, es₁, hcall, hc⟩ :=
      h.call text c ((lookups_mono c hn).trans hfirst)
    obtain ⟨as, s', es', hcalls, hcached, hlru, hans⟩ :=
      ih hc.cached (hc.generations.trans (lookups_mono c hn)) hrest
    refine ⟨a :: as, s', es', ?_, hcached, ?_, fun halias lv hh => ?_⟩
    · rw [LogState.calls, hcall]
      show (LogState.calls text t cs).map _ = _
      rw [hcalls]
      rfl
    · rw [hlru, hc.lru, List.foldl_cons]
    · obtain ⟨ha, hh'⟩ := hc.answers halias lv hh
      rw [LogLevels.calls, hans halias _ hh', ← ha]

end LogState

/-! ### Main results -/

/-- **The cache is in order**: in a run whose generations fit, no check fails, and in the end each
entry is younger than its parent in the heap. -/
theorem log_checks_hold (text : ℕ → List UInt8) (cs : List LogCall) (hfit : GenerationsFit 0 cs) :
    ∃ r, LogState.init.calls text cs = some r ∧ r.2.entryCount ≤ TAG_CACHE_SIZE ∧
      ∀ i, 0 < i → i < r.2.entryCount →
        (r.2.cache ((i - 1) / 2)).generation < (r.2.cache i).generation := by
  obtain ⟨as, s', es', hcalls, hcached, -, -⟩ :=
    LogState.cached_init.calls text cs (Nat.le_refl _) hfit
  exact ⟨(as, s'), hcalls, hcached.size, hcached.ordered⟩

/-- Two tags, one of which is used again and gets a level. -/
theorem log_checks_hold_two : ∃ r, LogState.init.calls (fun p => [p.toUInt8])
    [.get 1, .get 2, .write .warn 1, .set [2] .error true, .get 2] = some r ∧
      r.2.entryCount ≤ TAG_CACHE_SIZE ∧ ∀ i, 0 < i → i < r.2.entryCount →
        (r.2.cache ((i - 1) / 2)).generation < (r.2.cache i).generation :=
  log_checks_hold _ _ (by decide)

/-- **The cache is an LRU cache** of `TAG_CACHE_SIZE` tags, once it is full; before that the tags
are in the order in which they came. -/
theorem log_cache_lru (text : ℕ → List UInt8) (cs : List LogCall) (hfit : GenerationsFit 0 cs) :
    ∃ r, LogState.init.calls text cs = some r ∧
      ((MinHeap.entries r.2.entryCount r.2.cache).map CachedTagEntry.tag).Perm
        (cs.foldl LogCall.lru []) := by
  obtain ⟨as, s', es', hcalls, hcached, hlru, -⟩ :=
    LogState.cached_init.calls text cs (Nat.le_refl _) hfit
  refine ⟨(as, s'), hcalls, ?_⟩
  rw [← List.map_nil, ← hlru]
  exact hcached.perm.map _

/-- The second lookup of the first tag comes before the cache is full, so that this tag is the one
that is evicted. -/
theorem log_cache_lru_evicts : ∃ r,
    LogState.init.calls (fun p => [p.toUInt8])
      ((List.range 30).map LogCall.get ++ [.get 0, .get 30, .get 31]) = some r ∧
      ((MinHeap.entries r.2.entryCount r.2.cache).map CachedTagEntry.tag).Perm
        (List.range 32).tail :=
  log_cache_lru _ _ (by decide)

/-- Of two pointers to one text only the one that came first gets a level that is set. -/
theorem stale_level {text : ℕ → List UInt8} {p q : ℕ} (htext : text p = text q)
    (hw : text p ≠ LogState.wildcard) (hpq : p ≠ q) :
    (LogState.init.calls text [.get p, .get q, .set (text p) .error true, .get q]).map Prod.fst =
      some [.level .info, .level .info, .done, .level .info] := by
  have hqw : text q ≠ LogState.wildcard := htext ▸ hw
  simp [LogState.calls, LogState.call, LogState.espLogLevelGet, LogState.getCachedLogLevel,
    LogState.init, LogState.findEntry, LogState.getUncachedLogLevel, LogState.addToCache,
    LogState.generation, LogState.nextGeneration, LogState.espLogLevelSet, LogState.setTag,
    LogState.setCached, LogState.useEntry, TAG_CACHE_SIZE, hqw, hpq, htext]

/-- **The cache is coherent**: every run whose generations fit answers as the levels that were set,
if and only if no two tags have the same text. -/
theorem log_levels_iff (text : ℕ → List UInt8) :
    Unaliased text ↔ ∀ cs, GenerationsFit 0 cs →
      (LogState.init.calls text cs).map Prod.fst = some (LogLevels.init.calls text cs) := by
  constructor
  · intro halias cs hfit
    obtain ⟨as, s', es', hcalls, -, -, hans⟩ :=
      LogState.cached_init.calls text cs (Nat.le_refl _) hfit
    rw [hcalls, ← hans halias _ (LogState.holds_init)]
    rfl
  · intro hall p q heq
    by_contra hne
    obtain ⟨hw, hpq⟩ := not_or.mp hne
    -- The entry of `p` comes first, so that the one of `q` keeps the old level.
    have hrun := hall [.get p, .get q, .set (text p) .error true, .get q] (by
      simp [GenerationsFit, LogCall.lookups, hw])
    rw [stale_level heq hw hpq] at hrun
    have hqw : text q ≠ LogState.wildcard := heq ▸ hw
    simp [LogLevels.calls, LogLevels.call, LogLevels.init, LogLevels.level, LogLevels.set, hqw,
      heq] at hrun

end AudioPipeline

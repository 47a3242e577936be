import Mathlib.Algebra.Order.Ring.Int
import Mathlib.Logic.Function.Basic

/-!
# Log levels (`log.c`)

The level of a tag is looked up in a cache of `TAG_CACHE_SIZE` entries first and in the list of all
tags that `esp_log_level_set` was called with only then.  The cache compares the pointers to the
tags, the list and `esp_log_level_set` the strings they point to (`text`).

Once it is full the cache is a binary min-heap in the generations of its entries, which
`LOG_BUILTIN_CHECKS` checks while it is searched: `none` is a check that fails.  What lies behind
`s_log_cache_entry_count` in the cache is not read.

Each function holds the lock from its first to its last access, so that the calls of several
threads are a sequence of calls.
-/

namespace AudioPipeline

/-- `esp_log_level_t`. -/
inductive EspLogLevel
  | none
  | error
  | warn
  | info
  | debug
  | verbose
  deriving DecidableEq, Repr

def EspLogLevel.toNat : EspLogLevel → ℕ
  | none => 0
  | error => 1
  | warn => 2
  | info => 3
  | debug => 4
  | verbose => 5

abbrev TAG_CACHE_SIZE : ℕ := 31

/-- `cached_tag_entry_t`; `generation` has 29 bits. -/
structure CachedTagEntry where
  tag : ℕ
  level : EspLogLevel
  generation : ℕ
  deriving DecidableEq, Repr

/-- The variables of `log.c`; `tags` are the entries of `s_log_tags`, from the head on. -/
structure LogState where
  defaultLevel : EspLogLevel
  tags : List (List UInt8 × EspLogLevel)
  cache : ℕ → CachedTagEntry
  maxGeneration : ℕ
  entryCount : ℕ

namespace LogState

/-- The static initialisers; the level is `CONFIG_LOG_DEFAULT_LEVEL`. -/
def init : LogState where
  defaultLevel := .info
  tags := []
  cache := fun _ => ⟨0, .none, 0⟩
  maxGeneration := 0
  entryCount := 0

/-! ### The heap -/

def heapSwap (cache : ℕ → CachedTagEntry) (i j : ℕ) : ℕ → CachedTagEntry :=
  Function.update (Function.update cache i (cache j)) j (cache i)

/-- The loop of `heap_bubble_down`, which `TAG_CACHE_SIZE / 2` turns are enough for. -/
def bubbleLoop : ℕ → (ℕ → CachedTagEntry) → ℕ → ℕ → CachedTagEntry
  | 0, cache, _ => cache
  | fuel + 1, cache, index =>
    if index < TAG_CACHE_SIZE / 2 then
      let leftIndex := index * 2 + 1
      let rightIndex := leftIndex + 1
      let next :=
        if (cache leftIndex).generation < (cache rightIndex).generation then leftIndex
        else rightIndex
      bubbleLoop fuel (heapSwap cache index next) next
    else cache

def heapBubbleDown (cache : ℕ → CachedTagEntry) (index : ℕ) : ℕ → CachedTagEntry :=
  bubbleLoop (TAG_CACHE_SIZE / 2) cache index

/-! ### The cache -/

/-- `s_log_cache_max_generation++`, as it is stored in an entry. -/
def generation (s : LogState) : ℕ := s.maxGeneration % 2 ^ 29

/-- `s_log_cache_max_generation` after that. -/
def nextGeneration (s : LogState) : ℕ := (s.maxGeneration + 1) % 2 ^ 32

/-- The search for an entry from `i` on, with its check; `some none` is the end of the cache. -/
def findEntry (s : LogState) (p : CachedTagEntry → Bool) : ℕ → ℕ → Option (Option ℕ)
  | 0, _ => some none
  | fuel + 1, i =>
    if i = 0 ∨ (s.cache ((i - 1) / 2)).generation < (s.cache i).generation then
      if p (s.cache i) then some (some i) else s.findEntry p fuel (i + 1)
    else none

/-- The level of an entry that is found, and its new generation if the cache is full. -/
def useEntry (s : LogState) (i : ℕ) : EspLogLevel × LogState :=
  ((s.cache i).level,
    if s.entryCount = TAG_CACHE_SIZE then
      { s with
        cache := heapBubbleDown
          (Function.update s.cache i { s.cache i with generation := s.generation }) i
        maxGeneration := s.nextGeneration }
    else s)

/-- `get_cached_log_level`. -/
def getCachedLogLevel (s : LogState) (tag : ℕ) : Option (Option (EspLogLevel × LogState)) :=
  (s.findEntry (fun e => e.tag = tag) s.entryCount 0).map (Option.map s.useEntry)

/-- `add_to_cache`. -/
def addToCache (s : LogState) (tag : ℕ) (level : EspLogLevel) : LogState :=
  let entry := { tag, level, generation := s.generation }
  if s.entryCount < TAG_CACHE_SIZE then
    { s with
      cache := Function.update s.cache s.entryCount entry
      maxGeneration := s.nextGeneration
      entryCount := s.entryCount + 1 }
  else
    { s with
      cache := heapBubbleDown (Function.update s.cache 0 entry) 0
      maxGeneration := s.nextGeneration }

/-! ### The functions -/

/-- `get_uncached_log_level`. -/
def getUncachedLogLevel (s : LogState) (tag : List UInt8) : Option EspLogLevel :=
  (s.tags.find? fun it => it.1 = tag).map Prod.snd

/-- `esp_log_level_get`, and the part of `esp_log_writev` that finds the level. -/
def espLogLevelGet (text : ℕ → List UInt8) (s : LogState) (tag : ℕ) :
    Option (EspLogLevel × LogState) :=
  (s.getCachedLogLevel tag).map fun cached =>
    cached.getD
      (let level := (s.getUncachedLogLevel (text tag)).getD s.defaultLevel
      (level, s.addToCache tag level))

/-- `clear_log_level_list`. -/
def clearLogLevelList (s : LogState) : LogState :=
  { s with tags := [], maxGeneration := 0, entryCount := 0 }

/-- The first entry of the list with the tag gets the level, if there is one. -/
def setTag (tag : List UInt8) (level : EspLogLevel) :
    List (List UInt8 × EspLogLevel) → Option (List (List UInt8 × EspLogLevel))
  | [] => none
  | it :: tags =>
    if it.1 = tag then some ((it.1, level) :: tags)
    else (setTag tag level tags).map (it :: ·)

/-- The first entry of the cache with the tag gets the level. -/
def setCached (text : ℕ → List UInt8) (s : LogState) (tag : List UInt8) (level : EspLogLevel) :
    Option LogState :=
  (s.findEntry (fun e => text e.tag = tag) s.entryCount 0).map fun found =>
    found.elim s fun i =>
      { s with cache := Function.update s.cache i { s.cache i with level } }

/-- `"*"`. -/
def wildcard : List UInt8 := [0x2a]

/-- `esp_log_level_set`; `allocated` tells whether `malloc` has memory for a new entry. -/
def espLogLevelSet (text : ℕ → List UInt8) (s : LogState) (tag : List UInt8) (level : EspLogLevel)
    (allocated : Bool) : Option LogState :=
  if tag = wildcard then some { s with defaultLevel := level }.clearLogLevelList
  else
    (setTag tag level s.tags).elim
      (if allocated then { s with tags := (tag, level) :: s.tags }.setCached text tag level
      else some s)
      fun tags => { s with tags }.setCached text tag level

end LogState

/-! ### Runs -/

/-- A call from any thread. -/
inductive LogCall
  | set (tag : List UInt8) (level : EspLogLevel) (allocated : Bool)
  | get (tag : ℕ)
  /-- `esp_log_writev`. -/
  | write (level : EspLogLevel) (tag : ℕ)

/-- What a call gives back: the level, or whether the message is printed. -/
inductive LogAnswer
  | done
  | level (level : EspLogLevel)
  | printed (printed : Bool)
  deriving DecidableEq, Repr

/-- `should_output`. -/
def shouldOutput (levelForMessage levelForTag : EspLogLevel) : Bool :=
  levelForMessage.toNat ≤ levelForTag.toNat

namespace LogState

def call (text : ℕ → List UInt8) (s : LogState) : LogCall → Option (LogAnswer × LogState)
  | .set tag level allocated => (s.espLogLevelSet text tag level allocated).map (.done, ·)
  | .get tag => (s.espLogLevelGet text tag).map fun r => (.level r.1, r.2)
  | .write level tag =>
    (s.espLogLevelGet text tag).map fun r => (.printed (shouldOutput level r.1), r.2)

/-- The answers of one call after the other. -/
def calls (text : ℕ → List UInt8) : LogState → List LogCall → Option (List LogAnswer × LogState)
  | s, [] => some ([], s)
  | s, c :: cs =>
    (s.call text c).bind fun r => (calls text r.2 cs).map fun rs => (r.1 :: rs.1, rs.2)

end LogState

end AudioPipeline

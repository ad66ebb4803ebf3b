import FileRoutes.FilePath
import FileRoutes.Page.Meta

/-!
# Cache of extracted metadata

The cache remembers for each file the text that was read last and what was extracted from it. An
entry answers only for exactly its text; asking with another text drops it.

* `Cache.find?`: the entry of a file, paths being compared by components.
* `Cache.get`: asks for the metadata of a file with a given text, and counts hits and misses.
* `Cache.insert`, `Cache.invalidate`: sets and drops the entry of a file.
-/

namespace FileRoutes

/-- What was extracted from a text of a file; `none` is a file that declares nothing. -/
structure CacheEntry where
  file : FilePath
  text : String
  found : Option PageMeta
  deriving DecidableEq, Repr

/-- The entries, and how often they answered and did not. The counts are unbounded: that machine words
start again at zero after `2 ^ 64` questions is left out. -/
structure Cache where
  entries : List CacheEntry := []
  hits : Nat := 0
  misses : Nat := 0
  deriving DecidableEq, Repr, Inhabited

namespace Cache

/-- The entry of a file. -/
def find? (cache : Cache) (file : FilePath) : Option CacheEntry :=
  cache.entries.find? fun entry => entry.file.Same file

/-- The file has an entry. -/
def contains (cache : Cache) (file : FilePath) : Bool := (cache.find? file).isSome

/-- The number of entries. -/
def size (cache : Cache) : Nat := cache.entries.length

/-- There are no entries. -/
def isEmpty (cache : Cache) : Bool := cache.entries.isEmpty

/-- Drops the entry of a file. -/
def invalidate (cache : Cache) (file : FilePath) : Cache :=
  { cache with entries := cache.entries.filter fun entry => !decide (entry.file.Same file) }

/-- Counts a hit. -/
def recordHit (cache : Cache) : Cache := { cache with hits := cache.hits + 1 }

/-- Counts a miss. -/
def recordMiss (cache : Cache) : Cache := { cache with misses := cache.misses + 1 }

/-- What was extracted from exactly this text of the file, if that is known. Another text drops the
entry. -/
def get (cache : Cache) (file : FilePath) (text : String) : Option (Option PageMeta) × Cache :=
  match cache.find? file with
  | some entry =>
    if entry.text = text then (some entry.found, cache.recordHit)
    else (none, (cache.invalidate file).recordMiss)
  | none => (none, cache.recordMiss)

/-- Sets the entry of a file. A file that has one keeps its spelling. -/
def insert (cache : Cache) (file : FilePath) (text : String) (found : Option PageMeta) : Cache :=
  let spelling := ((cache.find? file).map CacheEntry.file).getD file
  let others := cache.invalidate file
  { others with entries := ⟨spelling, text, found⟩ :: others.entries }

end Cache

end FileRoutes

import ToolGraph.Digest
import ToolGraph.Entries
import ToolGraph.Settings

/-!
The cache of fetched remote sources, by the digests of their URLs. What is stored lives for a while
and then lapses; lapsed content is no longer given out, and goes with the next content that is
stored.
-/
namespace ToolGraph

/-- Stored content, and whether it still lives. -/
structure Stored where
  content : Bytes
  live : Bool
  deriving DecidableEq, Repr

/-- The contents of the directory of a cache. -/
abbrev Shelf := Entries String Stored

namespace Shelf

def empty : Shelf := []

def get? (shelf : Shelf) (url : String) : Option Bytes :=
  (Entries.get? shelf (Digest.ofText url)).bind (fun stored =>
    if stored.live then some stored.content else none)

/-- Stores content for `seconds`. With none it lapses at once, and with fewer than none it is not
even kept. -/
def set (shelf : Shelf) (seconds : Int) (url : String) (content : Bytes) : Shelf :=
  let key := Digest.ofText url
  let others := (Entries.erase shelf key).filter (·.2.live)
  if seconds < 0 then others else others ++ [(key, ⟨content, decide (0 < seconds)⟩)]

def erase (shelf : Shelf) (url : String) : Shelf := Entries.erase shelf (Digest.ofText url)

end Shelf

/-- A cache in a directory, perhaps switched off. -/
structure Cache where
  directory : String
  settings : CacheSettings
  shelf : Shelf

namespace Cache

def shelfPath (directory : String) : String := directory ++ "/sources"

def get? (cache : Cache) (url : String) : Option Bytes :=
  if cache.settings.enabled then cache.shelf.get? url else none

/-- Changes the contents unless the cache is switched off. -/
def change (cache : Cache) (f : Shelf → Shelf) : Cache :=
  if cache.settings.enabled then { cache with shelf := f cache.shelf } else cache

def set (cache : Cache) (url : String) (content : Bytes) : Cache :=
  cache.change (·.set cache.settings.ttlSeconds url content)

def erase (cache : Cache) (url : String) : Cache := cache.change (·.erase url)

def clear (cache : Cache) : Cache := cache.change (fun _ => Shelf.empty)

/-- What is stored, lapsed content included. -/
def size (cache : Cache) : Nat := cache.shelf.length

def report (cache : Cache) : Json :=
  if cache.settings.enabled then
    .object [("enabled", .bool true), ("size", .int cache.size),
      ("directory", .text (shelfPath cache.directory)),
      ("ttl_seconds", .int cache.settings.ttlSeconds)]
  else .object [("enabled", .bool false)]

end Cache
end ToolGraph

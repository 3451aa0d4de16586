import ToolGraph.Cache
import ToolGraph.Canonical
import ToolGraph.FileTree
import ToolGraph.Url.Request

/-!
A world to load from: files, and a web whose URLs answer requests in a given order. It keeps a log
of what is requested, read and waited for.
-/
namespace ToolGraph

inductive Reply where
  | answer (status : Int) (content : Bytes) (redirect : Option (List Char))
  | failed (kind text : String)
  | tooManyRedirects
  | undecodable
  deriving DecidableEq, Repr

/-- How many bytes a reply brings, and one. -/
def Reply.size : Reply → Nat
  | .answer _ content _ => content.length + 1
  | _ => 1

structure World where
  cwd : List Char
  home : List Char
  files : FileTree
  /-- The replies of each URL, one to a request; the last one stays. -/
  web : Entries (List Char) (List Reply)
  cache : Option Cache
  requests : List (List Char)
  reads : List (List Char)
  /-- The waits between attempts, in seconds. -/
  waits : List Binary64

namespace World

def missing : Reply := .answer 404 [] none

def place (world : World) : Canonical.Place :=
  ⟨world.files.isDirectoryAt, world.home, world.cwd⟩

def canonical (world : World) (location : List Char) : Except Error (List Char) :=
  Canonical.location world.place location

def take (world : World) (url : List Char) : Reply × World :=
  match world.web.get? url with
  | none | some [] => (missing, world)
  | some [reply] => (reply, world)
  | some (reply :: replies) => (reply, { world with web := world.web.put url replies })

def send (world : World) (url : List Char) : Reply × World :=
  { world with requests := world.requests ++ [url] }.take url

def read (world : World) (path : List Char) : Except FileFault Bytes × World :=
  (world.files.readAt path, { world with reads := world.reads ++ [path] })

def wait (world : World) (seconds : Binary64) : World :=
  { world with waits := world.waits ++ [seconds] }

/-- Forgets what has happened so far. -/
def clearLogs (world : World) : World := { world with requests := [], reads := [], waits := [] }

end World
end ToolGraph

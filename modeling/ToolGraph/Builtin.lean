import ToolGraph.Block.Parser

/-!
Built-in tools. A reference to one is never fetched: the tool is added to the program under its own
name, and its instructions name it to the runner.
-/
namespace ToolGraph

structure Builtin where
  name : String
  description : String
  arguments : Entries String String

namespace Builtin

/-- Names that start so are those of built-in tools. -/
def namespaceMark : String := "sys."

def isReference (reference : String) : Bool :=
  Text.startsWith namespaceMark reference.toList

def all : List Builtin := [
  ⟨"sys.abort",
    "Aborts execution", [
      ("message",
        "The description of the error or unexpected result that caused abort to be called")]⟩,
  ⟨"sys.append",
    "Appends the contents to a file", [
      ("filename",
        "The name of the file to append to"),
      ("content",
        "The content to append")]⟩,
  ⟨"sys.download",
    "Downloads a URL, saving the contents to disk at a given location", [
      ("url",
        "The URL to download, either http or https."),
      ("location",
        "(optional) The on disk location to store the file. If no location is specified a " ++
        "temp location will be used."),
      ("override",
        "If true and a file at the location exists, the file will be overwritten, otherwise " ++
        "fail. Default is false")]⟩,
  ⟨"sys.exec",
    "Execute a command and get the output of the command", [
      ("command",
        "The command to run including all applicable arguments"),
      ("directory",
        "The directory to use as the current working directory of the command. The current " ++
        "directory '.' will be used if no argument is passed")]⟩,
  ⟨"sys.find",
    "Traverse a directory looking for files that match a pattern in the style of the unix " ++
    "find command", [
      ("pattern",
        "The file pattern to look for. The pattern is a traditional unix glob format with * " ++
        "matching any character and ? matching a single character"),
      ("directory",
        "The directory to search in. The current directory '.' will be used as the default if " ++
        "no argument is passed")]⟩,
  ⟨"sys.getenv",
    "Gets the value of an OS environment variable", [
      ("name",
        "The environment variable name to lookup")]⟩,
  ⟨"sys.http.get",
    "Download the contents of a http or https URL", [
      ("url",
        "The URL to download")]⟩,
  ⟨"sys.http.html2text",
    "Download the contents of a http or https URL returning the content as rendered text " ++
    "converted from HTML", [
      ("url",
        "The URL to download")]⟩,
  ⟨"sys.http.post",
    "Write contents to a http or https URL using the POST method", [
      ("url",
        "The URL to POST to"),
      ("content",
        "The content to POST"),
      ("contentType",
        "The \"content type\" of the content such as application/json or text/plain")]⟩,
  ⟨"sys.ls",
    "Lists the contents of a directory", [
      ("dir",
        "The directory to list")]⟩,
  ⟨"sys.read",
    "Reads the contents of a file", [
      ("filename",
        "The name of the file to read")]⟩,
  ⟨"sys.remove",
    "Removes the specified file", [
      ("location",
        "The file to remove")]⟩,
  ⟨"sys.stat",
    "Gets size, modified time, and mode of the specified file", [
      ("filepath",
        "The complete path and filename of the file")]⟩,
  ⟨"sys.write",
    "Write the contents to a file", [
      ("filename",
        "The name of the file to write to"),
      ("content",
        "The content to write")]⟩]

def tool (builtin : Builtin) : Tool :=
  { Tool.named builtin.name with
    name := builtin.name
    description := builtin.description
    arguments := some (Block.argumentsSchema builtin.arguments)
    instructions := "#!" ++ builtin.name }

def find? (name : String) : Option Tool :=
  (all.find? (·.name == name)).map tool

end Builtin
end ToolGraph

import ToolGraph.Schema
import ToolGraph.Tool.Basic

/-! The settings of the loader and of the cache. -/
namespace ToolGraph

/-- How references are fetched and resolved. Without a timeout a load may take any time. -/
structure LoaderSettings where
  defaultModel : String
  timeout : Option Binary64
  requestTimeout : Binary64
  maxConcurrency : Int
  maxRetries : Int
  verifySsl : Bool

structure CacheSettings where
  enabled : Bool
  ttlSeconds : Int

structure Settings where
  loader : LoaderSettings
  cache : CacheSettings

open Schema

namespace LoaderSettings

def initial : LoaderSettings :=
  { defaultModel := ToolGraph.defaultModel
    timeout := none
    requestTimeout := Binary64.ofInt 30
    maxConcurrency := 8
    maxRetries := 2
    verifySsl := true }

def check : Value → Checked LoaderSettings :=
  record (fun entries =>
    LoaderSettings.mk
      <$> field entries ["default_model"] text (some initial.defaultModel)
      <*> field entries ["timeout"] (optional number) (some initial.timeout)
      <*> field entries ["request_timeout"] number (some initial.requestTimeout)
      <*> field entries ["max_concurrency"] (wholeFrom 1) (some initial.maxConcurrency)
      <*> field entries ["max_retries"] (wholeFrom 0) (some initial.maxRetries)
      <*> field entries ["verify_ssl"] bool (some initial.verifySsl))

def toJson (settings : LoaderSettings) : Json :=
  .object [("default_model", .text settings.defaultModel),
    ("timeout", (settings.timeout.map Json.float).getD .null),
    ("request_timeout", .float settings.requestTimeout),
    ("max_concurrency", .int settings.maxConcurrency),
    ("max_retries", .int settings.maxRetries),
    ("verify_ssl", .bool settings.verifySsl)]

end LoaderSettings

namespace CacheSettings

def initial : CacheSettings := { enabled := false, ttlSeconds := 300 }

def check : Value → Checked CacheSettings :=
  record (fun entries =>
    CacheSettings.mk
      <$> field entries ["enabled"] bool (some initial.enabled)
      <*> field entries ["ttl_seconds"] whole (some initial.ttlSeconds))

def toJson (settings : CacheSettings) : Json :=
  .object [("enabled", .bool settings.enabled), ("ttl_seconds", .int settings.ttlSeconds)]

end CacheSettings

namespace Settings

def initial : Settings := ⟨.initial, .initial⟩

def check : Value → Checked Settings :=
  record (fun entries =>
    Settings.mk
      <$> field entries ["loader"] LoaderSettings.check (some .initial)
      <*> field entries ["cache"] CacheSettings.check (some .initial))

def toJson (settings : Settings) : Json :=
  .object [("loader", settings.loader.toJson), ("cache", settings.cache.toJson)]

end Settings
end ToolGraph

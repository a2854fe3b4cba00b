import SymFind.Core.SymbolData

/-!
# The parsed configuration

The values that the other components ask a `ConfigParser` for.
-/
namespace Config
open RecordCodec SymbolData

structure ConfigParser where
  pruneBindMounts : Bool
  debugPruning : Bool
  databasePath : Bytes
  databaseScanPath : Bytes
  prunefs : List Bytes
  prunepaths : List Bytes
  prunenames : List Bytes
  /-- All configurations in one block. -/
  confBlock : Bytes

/-- The constructor's values; nothing is pruned and the block is not generated yet. -/
def ConfigParser.new : ConfigParser where
  pruneBindMounts := false
  debugPruning := false
  databasePath := text "/var/lib/symfind/symfind.db"
  databaseScanPath := text "/"
  prunefs := []
  prunepaths := []
  prunenames := []
  confBlock := []

end Config

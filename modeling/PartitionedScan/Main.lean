/-
The program: it looks up the environment and the files that a command line names, and leaves the rest to `respond`.
-/
import PartitionedScan.CommandLine.Run

namespace PartitionedScan.CommandLine

/-- the text of a file; none when it cannot be read -/
def readFile? (path : String) : IO (Option String) := do
  try
    return some (← IO.FS.readFile path)
  catch _ => return none

/-- the configuration file of the user -/
def userConfig? : IO (Option String) := do
  let file := "/shardscan/read.toml"
  match ← IO.getEnv "XDG_CONFIG_HOME" with
  | some base => return some (base ++ file)
  | none => return (← IO.getEnv "HOME").map (· ++ "/.config" ++ file)

/-- the dataset that an invocation names -/
def datasetOf : Command → String
  | .plan a _ => a.dataset
  | .read a _ _ _ => a.dataset

/-- the files that an invocation may need, with their texts -/
def collectFiles (paths : List String) : IO Files := do
  let texts ← paths.mapM fun path => return (path, ← readFile? path)
  return fun path => (texts.lookup path).join

end PartitionedScan.CommandLine

open PartitionedScan PartitionedScan.CommandLine in
def main (words : List String) : IO UInt32 := do
  let environmentConfig ← IO.getEnv "SHARDSCAN_CONFIG"
  let defaultConfig ← userConfig?
  let paths := match parse words with
    | .ok i => datasetOf i.command :: i.config.toList ++ environmentConfig.toList ++ defaultConfig.toList
    | .error _ => []
  let report := respond ⟨← collectFiles paths, environmentConfig, defaultConfig, 1⟩ words
  (← IO.getStdout).putStr report.stdout
  (← IO.getStderr).putStr report.stderr
  return UInt32.ofNat report.code

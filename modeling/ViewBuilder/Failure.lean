import ViewBuilder.Text

/-!
# What can go wrong

Most odd input is no failure: a tab list that does not read as one, or an unknown template, means
that there is nothing to do. The causes here end a run.
-/

namespace ViewBuilder

inductive Failure where
  /-- References nest deeper than the limit; `path` is where the last fragment was stored. -/
  | depthExceeded (path : Text) (depth limit : Nat)
  | invalidPath (path reason : Text)
  | config (message : Text)
  | runFile (path reason : Text)
  | io (message : Text)
  /-- A stored value does not have the shape that is asked for. -/
  | json
  | toml
deriving DecidableEq

namespace Failure

def message : Failure → Text
  | .depthExceeded path depth limit =>
    "Template/layout resolution exceeded maximum depth " ++ Text.ofNat limit ++ " at '" ++ path ++
      "' (depth " ++ Text.ofNat depth ++ ")"
  | .invalidPath path reason => "Invalid registry path '" ++ path ++ "': " ++ reason
  | .config message => "Configuration error: " ++ message
  | .runFile path reason => "Invalid run file '" ++ path ++ "': " ++ reason
  | .io message => "IO error: " ++ message
  | .json => "JSON error: the value does not have the expected shape"
  | .toml => "TOML parsing error: the text is not a valid config"

end Failure

end ViewBuilder

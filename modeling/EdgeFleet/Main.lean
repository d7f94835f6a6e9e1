import EdgeFleet.Settings

namespace EdgeFleet

def environment : IO (List (String × Option String)) :=
  Settings.names.mapM fun name => return (name, ← IO.getEnv name)

def Settings.summary (s : Settings) : List String :=
  [s.describe, "directory: " ++ s.directory.callUrl, "sessions: " ++ s.session.infoUrl]

end EdgeFleet

def main : IO Unit := do
  let values ← EdgeFleet.environment
  let settings := EdgeFleet.Settings.ofEnvironment fun name => (values.lookup name).join
  for line in settings.summary do
    IO.println line

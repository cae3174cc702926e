import LatencyRank.Settings.Basic
import LatencyRank.Disk
import LatencyRank.Json.Reader
import LatencyRank.Json.Basic

/-!
The configuration file below a base directory. Loading a missing one writes the defaults there;
an existing one is never changed by loading. The file is written in place: a save that fails in the
middle of it has lost what the file held.
-/

namespace LatencyRank

inductive StoreError where
  | read (path : String)
  | parse
  | create (path : String)
  | write
deriving DecidableEq, Repr

def StoreError.message : StoreError → String
  | read path => "read config: " ++ path
  | parse => "parse config json"
  | create path => "create config: " ++ path
  | write => "write config"

namespace SettingsDocument

/-- The directory of this application below the user's configuration. -/
def applicationName : String := "smartdns-sort"

def defaultBase (userConfig : String) : String := Disk.resolve userConfig applicationName

def pathBelow (base : String) : String := Disk.resolve (Disk.resolve base "config") "config.json"

def save (d : SettingsDocument) (disk : Disk) (base : String) : Disk × Except StoreError Unit :=
  let path := pathBelow base
  let disk := disk.makeParent path
  let bytes := d.toJson.pretty.toUTF8
  -- There is no draft here. What the file held is gone once it is opened.
  match disk.write? path bytes with
  | some written => (written, if disk.takes bytes then .ok () else .error .write)
  | none => (disk, .error (.create path))

def load (disk : Disk) (base : String) : Disk × Except StoreError SettingsDocument :=
  let path := pathBelow base
  if disk.holds path then
    match disk.read? path with
    | none => (disk, .error (.read path))
    | some bytes =>
      match (Json.ofBytes? bytes).bind ofJson? with
      | none => (disk, .error .parse)
      | some document => (disk, .ok document)
  else
    let document : SettingsDocument := {}
    let (disk, saved) := document.save disk base
    (disk, saved.map fun _ => document)

def loadEffective (disk : Disk) (base : String) : Disk × Except StoreError Settings :=
  let (disk, loaded) := load disk base
  (disk, loaded.map effective)

end SettingsDocument

end LatencyRank

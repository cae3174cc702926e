import LatencyRank.Logging.Filter

/-!
The log events of a process from its start to its first saved history. Only the first set-up of
logging counts, so a later level changes nothing.
-/

namespace LatencyRank.LogEvent

def initialized : LogEvent := ⟨.info, "smartdns_sort_lib::logging", ["message", "target", "level"]⟩

def settingsSaved : LogEvent :=
  ⟨.info, "smartdns_sort_lib::core::config::loader", ["message", "target", "path"]⟩

def historyUnreadable : LogEvent :=
  ⟨.warn, "smartdns_sort_lib::core::ping::failure_weight", ["message", "target", "path", "error"]⟩

def historySaved : LogEvent :=
  ⟨.debug, "smartdns_sort_lib::core::ping::failure_weight",
    ["message", "target", "path", "records"]⟩

/-- A process that saves its configuration, starts from a corrupt history file and saves that. -/
def firstRun : List LogEvent := [initialized, settingsSaved, historyUnreadable, historySaved]

/-- What is written of some events after logging was set up with the given levels in turn. -/
def written (environment : Option String) (levels : List String) (events : List LogEvent) :
    List LogEvent :=
  match levels with
  | [] => []
  | first :: _ => events.filter (LogFilter.choose environment first).allows

end LatencyRank.LogEvent

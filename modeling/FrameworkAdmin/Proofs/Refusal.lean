/-
# Refusals that lie in a text

An operation is refused for a text that cannot be read or written, or for a name that stands for nothing
or for the wrong thing.  The former do not depend on which names there are (`Refusal.OfText`).
-/
import FrameworkAdmin.Refusal

namespace FrameworkAdmin
namespace Refusal

/-- The fault lies in a value, a table or a filter. -/
def OfText (r : Refusal) : Prop := (∃ fault, r = .codec fault) ∨ ∃ fault, r = .filter fault

theorem ofText_codec (fault : Fault) : OfText (.codec fault) := Or.inl ⟨fault, rfl⟩

theorem eq_filter_of_readFilter {text : String} {refusal : Refusal}
    (h : readFilter text = .error refusal) : ∃ fault, refusal = .filter fault := by
  unfold readFilter at h
  split at h <;> cases h
  exact ⟨_, rfl⟩

theorem eq_filter_of_readFilter? {text : Option String} {refusal : Refusal}
    (h : readFilter? text = .error refusal) : ∃ fault, refusal = .filter fault := by
  unfold readFilter? at h
  split at h
  · cases h
  · split at h <;> cases h
    exact eq_filter_of_readFilter ‹_›

end Refusal
end FrameworkAdmin

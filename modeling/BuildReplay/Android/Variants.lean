import BuildReplay.Android.Shapes
import BuildReplay.Callback

/-!
# Variants

Callbacks for variants are kept until the settings are final. Then every variant is offered to the
callbacks as a builder first and, unless one of them disables it, made and handed to the rest.
-/

namespace BuildReplay.Android

/-- The point that is fired with a builder, before a variant is made. -/
def beforeVariants : CallbackPoint := ⟨"beforeVariants", typeRef VariantBuilder⟩

/-- The point that is fired with each variant that was made. -/
def onVariants : CallbackPoint := ⟨"onVariants", typeRef Variant⟩

/-- The extension that takes the callbacks for variants. -/
def applicationComponents : Components (List Registration) where
  typeName := "ApplicationAndroidComponentsExtension"
  points := [beforeVariants, onVariants]
  register r := .modify (· ++ [r])

/-- Makes the variants of some names, one after the other. -/
def runVariants (registrations : List Registration) : List String → Act Model (List (Ref Variant))
  | [] => return []
  | name :: rest => do
    let builder : Ref VariantBuilder ← .run (alloc (VariantBuilder.new name))
    fire host beforeVariants.name name builder.object registrations
    if ← .read fun m => (builder.get m).enable then
      let variant : Ref Variant ← .run (alloc (Variant.new name))
      fire host onVariants.name name variant.object registrations
      return variant :: (← runVariants registrations rest)
    else runVariants registrations rest

end BuildReplay.Android

/-
Purpose: The modules that come with the platform.
Main exports: platformModules
-/

namespace PackageLayers

/-- The modules that come with the platform.  They have no source in any package,
so they need no declaration and belong to the lowest layer. -/
def platformModules : List String :=
  ["Foundation", "Swift", "SwiftUI", "UIKit", "AppKit", "Combine", "Dispatch",
    "XCTest", "Testing", "CoreData", "CoreGraphics", "CoreFoundation",
    "Observation", "os"]

end PackageLayers

namespace Egl.Code

abbrev bufferSize : Int32 := 0x3020
abbrev alphaSize : Int32 := 0x3021
abbrev blueSize : Int32 := 0x3022
abbrev greenSize : Int32 := 0x3023
abbrev redSize : Int32 := 0x3024
abbrev depthSize : Int32 := 0x3025
abbrev stencilSize : Int32 := 0x3026
abbrev configCaveat : Int32 := 0x3027
abbrev configId : Int32 := 0x3028
abbrev level : Int32 := 0x3029
abbrev maxPbufferHeight : Int32 := 0x302A
abbrev maxPbufferPixels : Int32 := 0x302B
abbrev maxPbufferWidth : Int32 := 0x302C
abbrev nativeRenderable : Int32 := 0x302D
abbrev nativeVisualId : Int32 := 0x302E
abbrev nativeVisualType : Int32 := 0x302F
abbrev samples : Int32 := 0x3031
abbrev sampleBuffers : Int32 := 0x3032
abbrev surfaceType : Int32 := 0x3033
abbrev transparentType : Int32 := 0x3034
abbrev transparentBlueValue : Int32 := 0x3035
abbrev transparentGreenValue : Int32 := 0x3036
abbrev transparentRedValue : Int32 := 0x3037

/-- Ends an attribute list, and says "none" where a value is chosen from a list. -/
abbrev none : Int32 := 0x3038

abbrev bindToTextureRgb : Int32 := 0x3039
abbrev bindToTextureRgba : Int32 := 0x303A
abbrev minSwapInterval : Int32 := 0x303B
abbrev maxSwapInterval : Int32 := 0x303C
abbrev luminanceSize : Int32 := 0x303D
abbrev alphaMaskSize : Int32 := 0x303E
abbrev colorBufferType : Int32 := 0x303F
abbrev renderableType : Int32 := 0x3040
abbrev matchNativePixmap : Int32 := 0x3041
abbrev conformant : Int32 := 0x3042
abbrev slowConfig : Int32 := 0x3050
abbrev nonConformantConfig : Int32 := 0x3051
abbrev transparentRgb : Int32 := 0x3052
abbrev vendor : Int32 := 0x3053
abbrev version : Int32 := 0x3054
abbrev extensions : Int32 := 0x3055
abbrev height : Int32 := 0x3056
abbrev width : Int32 := 0x3057
abbrev draw : Int32 := 0x3059
abbrev read : Int32 := 0x305A
abbrev coreNativeEngine : Int32 := 0x305B
abbrev clientApis : Int32 := 0x308D
abbrev rgbBuffer : Int32 := 0x308E
abbrev luminanceBuffer : Int32 := 0x308F
abbrev contextClientType : Int32 := 0x3097
abbrev contextClientVersion : Int32 := 0x3098
abbrev openglEsApi : UInt32 := 0x30A0
abbrev openvgApi : UInt32 := 0x30A1
abbrev openglApi : UInt32 := 0x30A2

abbrev success : Int32 := 0x3000

abbrev dontCare : Int32 := -1

end Egl.Code
